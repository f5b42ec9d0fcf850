import BotScript.Proofs.Program.Sites
import BotScript.Proofs.Script.Tracking

/-!
# Instructions at their places

What each instruction of a checked program does when a machine comes to its place: where it leads,
and which part of an execution it tracks. The machine is given by its frame, the calls and loops it
is in, and only its place and its variables change on the way.

## Main definitions

* `Machine.arrive`: a machine that has come to a place.
* `Machine.Frame`: a machine that runs a checked program, with the loops it is in.

## Main results

* `Machine.Frame.leads_jump`, `Machine.Frame.leads_call`, `Machine.Frame.leads_ret`: instructions
  that ask nobody.
* `Machine.Frame.tracks_jumpIf`, `Machine.Frame.tracks_jumpBack`: instructions that ask a test.
* `Machine.Frame.tracks_next`: instructions that go on with the following one.
-/

namespace BotScript

open Activity Statement

namespace Machine

/-! ### Places -/

/-- A machine with another place and other variables. -/
def put (m : Machine) (place : Nat) (vars : Variables) :
    Machine := { m with ip := place, vars := vars }

/-- A machine that has come to a place; behind its program it has stopped. -/
def arrive (m : Machine) (place : Nat) (vars : Variables) : Machine := (m.put place vars).settle

/-- A machine with one more call to return from. -/
def within (m : Machine) (back : Nat) : Machine := { m with calls := back :: m.calls }

/-- A machine in one more `until` loop. -/
def inLoop (m : Machine) (g : UntilGuard) : Machine := { m with guards := g :: m.guards }

/-- A machine that runs a program which passes the check, with loops that are marked by their jumps
back. -/
structure Frame (site : Nat → Site) (p : Program) (m : Machine) : Prop where
  program : m.program = p
  running : m.running = true
  marked : ∀ g ∈ m.guards, Marked site g
  check : p.check = .ok ()

namespace Frame

variable {site : Nat → Site} {p : Program} {m : Machine} {place : Nat} {vars : Variables}
  {i : Instruction}

theorem within (h : Frame site p m) (back : Nat) : Frame site p (m.within back) :=
  ⟨h.program, h.running, h.marked, h.check⟩

theorem inLoop (h : Frame site p m) {g : UntilGuard} (hg : Marked site g) :
    Frame site p (m.inLoop g) := by
  refine ⟨h.program, h.running, ?_, h.check⟩
  intro g' hg'
  rcases List.mem_cons.mp hg' with rfl | hg'
  · exact hg
  · exact h.marked g' hg'

/-- Where there is an instruction, the machine has not stopped. -/
theorem arrive_eq (h : Frame site p m) (hi : p.code[place]? = some i) :
    m.arrive place vars = m.put place vars := by
  have hlt : place < p.code.length := (List.getElem?_eq_some_iff.mp hi).1
  unfold arrive settle
  rw [if_neg]
  change ¬ m.program.code.length ≤ place
  rw [h.program]
  omega

theorem instruction_put (h : Frame site p m) (hi : p.code[place]? = some i) :
    (m.put place vars).instruction? = some i := by
  change m.program.code[place]? = some i
  rw [h.program]
  exact hi

/-- A jump goes to where its offset leads. -/
theorem target_put (h : Frame site p m) (hi : p.code[place]? = some i) {offset : Int64}
    (hoffset : i.offset? = some offset) {target : Nat}
    (htarget : (place : Int) + offset.toInt = target) :
    (m.put place vars).target offset = .ok target := by
  obtain ⟨target', hjump⟩ := (Program.check_ok h.check hi).1 offset hoffset
  obtain rfl : target' = target := by
    have heq := (Program.jumpTarget?_eq_some hjump).1
    omega
  unfold target put
  rw [h.program, hjump]

theorem leap_put (h : Frame site p m) (hi : p.code[place]? = some i) {offset : Int64}
    (hoffset : i.offset? = some offset) {target : Nat}
    (htarget : (place : Int) + offset.toInt = target) :
    (m.put place vars).leap offset = .ok ⟨m.put target vars, []⟩ := by
  rw [leap, h.target_put hi hoffset htarget]
  rfl

/-! ### Instructions of a frame -/

variable {σ : Type} {n : Nat} [ClientModel σ] {crew : Crew n} {every : Nat} {expire : Option Nat}
  {count : Nat} {w : World σ n} {m' : Machine} {offset : Int64} {test : Expr} {target : Nat}

/-- An instruction with nothing to ask, which may write lines. -/
theorem leads_writing (h : Frame site p m) (hi : p.code[place]? = some i) {lines : List String}
    (hplan : (m.put place vars).plan crew every i = .done ⟨m', lines⟩)
    (hkilled : m'.killed = m.killed) :
    Leads crew every expire 1 w (m.arrive place vars) (w.log lines) m'.settle := by
  have hrunning : (m.put place vars).running = true := h.running
  rw [h.arrive_eq hi]
  exact leads_instant hrunning (h.instruction_put hi) hplan hkilled

/-- An instruction with nothing to ask and nothing to write. -/
theorem leads (h : Frame site p m) (hi : p.code[place]? = some i)
    (hplan : (m.put place vars).plan crew every i = .done ⟨m', []⟩)
    (hkilled : m'.killed = m.killed) :
    Leads crew every expire 1 w (m.arrive place vars) w m'.settle :=
  h.leads_writing hi hplan hkilled

theorem leads_nop (h : Frame site p m) (hi : p.code[place]? = some .nop) :
    Leads crew every expire 1 w (m.arrive place vars) w (m.arrive (place + 1) vars) :=
  h.leads hi rfl rfl

theorem leads_label (h : Frame site p m) {name : String}
    (hi : p.code[place]? = some (.label name)) :
    Leads crew every expire 1 w (m.arrive place vars) w (m.arrive (place + 1) vars) :=
  h.leads hi rfl rfl

/-- A jump that ends no `until` loop. -/
theorem leads_jump (h : Frame site p m) (hi : p.code[place]? = some (.jump offset))
    (hsite : (site place).closing = false) (htarget : (place : Int) + offset.toInt = target) :
    Leads crew every expire 1 w (m.arrive place vars) w (m.arrive target vars) := by
  have hopen : (m.put place vars).backEdge? = none := by
    rw [Option.eq_none_iff_forall_ne_some]
    intro g hg
    obtain ⟨hguards, hcloses⟩ := backEdge?_eq_some.mp hg
    -- A loop that ends here would be marked by this very jump, which is the jump back of no loop.
    obtain ⟨back, hexit, hclosing⟩ := h.marked g (by
      change m.guards = g :: m.guards.tail at hguards
      rw [hguards]
      exact List.mem_cons_self)
    obtain rfl : back = place := by
      simp only [closes, put, beq_iff_eq] at hcloses
      omega
    rw [hsite] at hclosing
    cases hclosing
  refine h.leads hi ?_ rfl
  rw [plan_jump, hopen]
  exact congrArg lift (h.leap_put hi rfl htarget)

theorem leads_enterUntil (h : Frame site p m) (hi : p.code[place]? = some (.enterUntil test offset))
    (htarget : (place : Int) + offset.toInt = target) :
    Leads crew every expire 1 w (m.arrive place vars) w
      ((m.inLoop ⟨test, target⟩).arrive (place + 1) vars) := by
  refine h.leads hi ?_ rfl
  rw [plan_enterUntil, h.target_put hi rfl htarget]
  rfl

theorem leads_call (h : Frame site p m) {name : String} (hi : p.code[place]? = some (.call name))
    (hlabel : p.labelBefore? place name = some target) :
    Leads crew every expire 1 w (m.arrive place vars) w
      ((m.within (place + 1)).arrive target vars) := by
  have hput : (m.put place vars).program.labelBefore? (m.put place vars).ip name = some target := by
    change m.program.labelBefore? place name = some target
    rwa [h.program]
  refine h.leads hi ?_ rfl
  rw [plan_call, label, hput]
  rfl

theorem leads_ret (h : Frame site p m) {back : Nat} (hi : p.code[place]? = some .ret) :
    Leads crew every expire 1 w ((m.within back).arrive place vars) w (m.arrive back vars) :=
  (h.within back).leads hi rfl rfl

/-- An instruction that asks a test and goes to one of two places. -/
theorem tracks_test (h : Frame site p m) (hi : p.code[place]? = some i) {m₁ : Bool → Machine}
    {dest : Bool → Variables → Machine}
    (hplan : (m.put place vars).plan crew every i =
      (test.evalCondition crew vars).bind fun r => lift (.ok ⟨m₁ r, []⟩))
    (hkilled : ∀ r, (m₁ r).killed = m.killed) (hvars : ∀ r, (m₁ r).vars = vars)
    (hdest : ∀ r, dest r vars = (m₁ r).settle) :
    Tracks crew every expire 1 count dest w (m.arrive place vars)
      (test.holds crew expire count w vars) := by
  have hrunning : (m.put place vars).running = true := h.running
  rw [h.arrive_eq hi, ← Exec.bind_pure (test.holds crew expire count)]
  refine tracks_perform id hrunning (h.instruction_put hi) hplan hkilled ?_ ?_
  · intro r w'
    rw [hvars]
    rfl
  · intro r
    rw [hvars]
    exact hdest r

theorem tracks_jumpIf (h : Frame site p m) (hi : p.code[place]? = some (.jumpIf test offset))
    (htarget : (place : Int) + offset.toInt = target) :
    Tracks crew every expire 1 count (fun yes => m.arrive (if yes then target else place + 1)) w
      (m.arrive place vars) (test.holds crew expire count w vars) := by
  have hplan : (m.put place vars).plan crew every (.jumpIf test offset) =
      (test.evalCondition crew vars).bind fun yes =>
        lift (.ok ⟨m.put (if yes then target else place + 1) vars, []⟩) := by
    rw [plan_jumpIf]
    refine congrArg (test.evalCondition crew vars).bind (funext fun yes => ?_)
    cases yes with
    | true => exact congrArg lift (h.leap_put hi rfl htarget)
    | false => rfl
  exact h.tracks_test hi hplan (fun _ => rfl) (fun _ => rfl) fun _ => rfl

theorem tracks_jumpIfNot (h : Frame site p m) (hi : p.code[place]? = some (.jumpIfNot test offset))
    (htarget : (place : Int) + offset.toInt = target) :
    Tracks crew every expire 1 count (fun yes => m.arrive (if yes then place + 1 else target)) w
      (m.arrive place vars) (test.holds crew expire count w vars) := by
  have hplan : (m.put place vars).plan crew every (.jumpIfNot test offset) =
      (test.evalCondition crew vars).bind fun yes =>
        lift (.ok ⟨m.put (if yes then place + 1 else target) vars, []⟩) := by
    rw [plan_jumpIfNot]
    refine congrArg (test.evalCondition crew vars).bind (funext fun yes => ?_)
    cases yes with
    | true => rfl
    | false => exact congrArg lift (h.leap_put hi rfl htarget)
  exact h.tracks_test hi hplan (fun _ => rfl) (fun _ => rfl) fun _ => rfl

/-- The jump back of an `until` loop asks the test of the loop, and leaves it or begins
the next round. -/
theorem tracks_jumpBack (h : Frame site p m) {g : UntilGuard} (hg : Marked site g)
    (hi : p.code[place]? = some (.jump offset)) (hexit : g.exit = place + 1)
    (htarget : (place : Int) + offset.toInt = target) :
    Tracks crew every expire 1 count
      (fun leaves => if leaves then m.arrive g.exit else (m.inLoop g).arrive target) w
      ((m.inLoop g).arrive place vars) (g.test.holds crew expire count w vars) := by
  have hback : ((m.inLoop g).put place vars).backEdge? = some g := by
    refine backEdge?_eq_some.mpr ⟨rfl, ?_⟩
    rw [closes, hexit]
    exact beq_self_eq_true (place + 1)
  have hplan : ((m.inLoop g).put place vars).plan crew every (.jump offset) =
      (g.test.evalCondition crew vars).bind fun leaves =>
        lift (.ok ⟨if leaves then m.put g.exit vars else (m.inLoop g).put target vars, []⟩) := by
    rw [plan_jump, hback]
    refine congrArg (g.test.evalCondition crew vars).bind (funext fun leaves => ?_)
    cases leaves with
    | true => rfl
    | false => exact congrArg lift ((h.inLoop hg).leap_put hi rfl htarget)
  refine (h.inLoop hg).tracks_test hi hplan ?_ ?_ ?_ <;> intro leaves <;> cases leaves <;> rfl

/-- An instruction that does something with the clients and goes on with the following one. -/
theorem tracks_next {α : Type} (h : Frame site p m) (hi : p.code[place]? = some i)
    {y : Variables → Activity n α} {lines : α → List String} {update : α → Variables}
    {after : α → Exec σ n Unit}
    (hplan : (m.put place vars).plan crew every i =
      (y vars).bind fun r => lift (.ok ⟨m.put (place + 1) (update r), lines r⟩))
    (hafter : ∀ r (w : World σ n), after r w vars = .goesOn () (w.log (lines r)) (update r)) :
    Tracks crew every expire 1 count (fun _ => m.arrive (place + 1)) w (m.arrive place vars)
      ((Exec.perform crew expire count y >>= after) w vars) := by
  have hrunning : (m.put place vars).running = true := h.running
  rw [h.arrive_eq hi]
  exact tracks_perform (fun _ => ()) hrunning (h.instruction_put hi) hplan (fun _ => rfl) hafter
    fun _ => rfl

/-- An instruction that lets the clients do something, and no more. -/
theorem tracks_do (h : Frame site p m) (hi : p.code[place]? = some i)
    {y : Variables → Activity n Unit} (hplan : (m.put place vars).plan crew every i =
      (y vars).bind fun _ => lift (.ok ⟨m.put (place + 1) vars, []⟩)) :
    Tracks crew every expire 1 count (fun _ => m.arrive (place + 1)) w (m.arrive place vars)
      (Exec.perform crew expire count y w vars) := by
  rw [← Exec.bind_pure (Exec.perform crew expire count y)]
  exact h.tracks_next hi hplan fun _ _ => rfl

/-- A machine that is killed stops where it is. -/
theorem concludes_kill (h : Frame site p m) (hi : p.code[place]? = some .kill) :
    Concludes crew every expire .killed w (m.arrive place vars) w vars := by
  have hlt : place < p.code.length := (List.getElem?_eq_some_iff.mp hi).1
  have hrunning : (m.put place vars).running = true := h.running
  have hsettle : (m.put place vars).kill.settle = (m.put place vars).kill := by
    unfold settle
    split <;> rfl
  have hstep : (m.put place vars).step crew every ⟨none, expire⟩ 1 w =
      (.done 0, w, (m.put place vars).kill) := by
    rw [step_of_instruction hrunning (h.instruction_put hi)]
    change (_, w.log [], (m.put place vars).kill.settle) = _
    rw [hsettle]
    rfl
  -- One step to kill the machine, and a second look to find that it no longer runs.
  rw [h.arrive_eq hi]
  refine ⟨2, .done, (m.put place vars).kill, ?_, by simp, ?_, rfl, ?_⟩
  · rw [runOn_of_isDone hrunning hstep rfl, runOn_of_not_running rfl]
  · change (if place < m.program.length then Upshot.killed else .finished) = .killed
    rw [h.program]
    exact if_pos hlt
  · exact (Bool.or_true m.killed).symm

end Frame

end Machine

end BotScript
