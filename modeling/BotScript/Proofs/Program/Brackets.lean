import BotScript.Proofs.Machine.Range
import BotScript.Proofs.Program.Sites

/-!
# Calls and loops of compiled programs are well bracketed

A machine that runs a compiled program is in an activation of the script or of a block, and each
place to return to belongs to the activation that was suspended there. The `until` loops that the
machine has entered and not left are those around it in its own activation, and around the place to
return to in each suspended one. A block is entered by a call only, so its return always has
somewhere to go.

## Main definitions

* `openLoops`: the loops around a place and around the places to return to.
* `Grounded`: all activations but the oldest one are of blocks.
* `Machine.Bracketed`: calls and loops of a machine are well bracketed.

## Main results

* `Machine.bracketed_of_reachable`: they are so in every reachable machine.
* `Machine.compiled_step_has_target`: no step of a compiled program lacks a place to go on.
* `Machine.guards_eq_openLoops`: the loops of a machine are those around its activations, and a jump
  is taken for the end of one exactly if it is.
-/

namespace BotScript

open Cast Statement

variable {site : Nat → Site} {s : Script} {p : Program}

/-- The `until` loops around a place in its activation, innermost first, and then those around the
places to return to, the newest first. -/
def openLoops (site : Nat → Site) (place : Nat) (calls : List Nat) : List UntilGuard :=
  (site place).loops ++ calls.flatMap fun back => (site back).loops

/-- All activations but the oldest one are of blocks, and that one is of the script itself. -/
def Grounded (site : Nat → Site) : Nat → List Nat → Prop
  | place, [] => (site place).inBlock = false
  | place, back :: rest => (site place).inBlock = true ∧ Grounded site back rest

theorem openLoops_of_level {a b : Nat} (h : Level site a b) (calls : List Nat) :
    openLoops site a calls = openLoops site b calls := by
  unfold openLoops
  rw [h]

theorem grounded_congr {a b : Nat} (h : (site a).inBlock = (site b).inBlock) (calls : List Nat) :
    Grounded site a calls ↔ Grounded site b calls := by
  cases calls with
  | nil =>
    unfold Grounded
    rw [h]
  | cons back rest =>
    unfold Grounded
    rw [h]

theorem Level.grounded {a b : Nat} (h : Level site a b) {calls : List Nat}
    (hb : Grounded site b calls) : Grounded site a calls :=
  (grounded_congr (congrArg Region.inBlock h) calls).mpr hb

/-- The exits of all open loops lie behind jumps back. -/
theorem marked_of_mem_openLoops (hmarked : ∀ place, (site place).Marked site) {place : Nat}
    {calls : List Nat} {g : UntilGuard} (hg : g ∈ openLoops site place calls) : Marked site g := by
  rcases List.mem_append.mp hg with hg | hg
  · exact hmarked place g hg
  · obtain ⟨back, -, hg⟩ := List.mem_flatMap.mp hg
    exact hmarked back g hg

/-- A plain instruction leads to the next one in its region. -/
theorem Obeys.level_of_isPlain {place : Nat} {i : Instruction} (h : Obeys site place i)
    (hplain : i.isPlain = true) : Level site (place + 1) place := by
  cases i with
  | label name => exact h.2
  | _ => first | exact h | cases hplain

namespace Machine

/-- Calls and loops of a machine are well bracketed. -/
structure Bracketed (site : Nat → Site) (p : Program) (m : Machine) : Prop where
  program : m.program = p
  guards : m.guards = openLoops site m.ip m.calls
  grounded : Grounded site m.ip m.calls

variable {m : Machine}

theorem Bracketed.goTo (h : m.Bracketed site p) {place : Nat} (hlevel : Level site place m.ip) :
    (m.goTo place).Bracketed site p where
  program := h.program
  guards := h.guards.trans (openLoops_of_level hlevel m.calls).symm
  grounded := hlevel.grounded h.grounded

/-- A jump within a region keeps the brackets. -/
theorem Bracketed.goTo_target (h : m.Bracketed site p) {offset : Int64} {place : Nat}
    (hlevel : LevelJump site m.ip offset) (htarget : m.target offset = .ok place) :
    (m.goTo place).Bracketed site p :=
  h.goTo (hlevel place (Program.jumpTarget?_eq_some (target_ok htarget)).1)

/-- Where the machine takes a jump for the end of a loop, it is the jump back of that loop. -/
theorem Bracketed.closing_of_closes (hmarked : ∀ place, (site place).Marked site)
    (h : m.Bracketed site p) {g : UntilGuard} {outer : List UntilGuard} (hg : m.guards = g :: outer)
    (hc : m.closes g = true) : (site m.ip).closing = true := by
  have hmem : g ∈ openLoops site m.ip m.calls := by
    rw [← h.guards, hg]
    exact List.mem_cons_self
  obtain ⟨place, hexit, hclosing⟩ := marked_of_mem_openLoops hmarked hmem
  have hplace : place = m.ip := by
    simp only [closes, beq_iff_eq] at hc
    omega
  rwa [hplace] at hclosing

/-- At the jump back of a loop, that loop is the innermost one, and the others are those
behind it. -/
theorem Bracketed.guards_of_closing (h : m.Bracketed site p) {offset : Int64}
    (hobeys : Obeys site m.ip (.jump offset)) (hclosing : (site m.ip).closing = true) :
    ∃ g : UntilGuard, g.exit = m.ip + 1 ∧ m.guards = g :: openLoops site (m.ip + 1) m.calls ∧
      (site m.ip).inBlock = (site (m.ip + 1)).inBlock := by
  obtain ⟨g, hexit, hregion⟩ := hobeys.2 hclosing
  refine ⟨g, hexit, ?_, by rw [hregion]; rfl⟩
  rw [h.guards, openLoops, hregion]
  rfl

/-- Instructions that lead where their sites allow keep the brackets. -/
theorem Bracketed.moves (hobeys : Along (Obeys site) 0 p.code)
    (hmarked : ∀ place, (site place).Marked site) (h : m.Bracketed site p) {m' : Machine}
    {i : Instruction} (hi : m.instruction? = some i) (hmoves : m.Moves i m') :
    m'.Bracketed site p := by
  have hcode : p.code[m.ip]? = some i := by
    rw [← h.program]
    exact hi
  have hobey : Obeys site m.ip i := by
    have hat := along_iff_getElem?.mp hobeys m.ip i hcode
    rwa [Nat.zero_add] at hat
  cases hmoves with
  | kill => exact ⟨h.program, h.guards, h.grounded⟩
  | plain hplain => exact h.goTo (hobey.level_of_isPlain hplain)
  | @leave offset g outer hg hc =>
    -- The loop that is left is the one whose jump back this is, so the machine comes to its exit.
    have hclosing := h.closing_of_closes hmarked hg hc
    obtain ⟨g', hexit, hguards, hblock⟩ := h.guards_of_closing hobey hclosing
    obtain ⟨rfl, rfl⟩ : g = g' ∧ outer = openLoops site (m.ip + 1) m.calls := by
      rw [hg] at hguards
      exact ⟨(List.cons.inj hguards).1, (List.cons.inj hguards).2⟩
    refine ⟨h.program, by rw [hexit], ?_⟩
    rw [hexit]
    exact (grounded_congr hblock m.calls).mp h.grounded
  | jump htarget => exact h.goTo_target hobey.1 htarget
  | jumpIf htarget => exact h.goTo_target hobey.2 htarget
  | stayIf => exact h.goTo hobey.1
  | jumpIfNot htarget => exact h.goTo_target hobey.2 htarget
  | stayIfNot => exact h.goTo hobey.1
  | @enterUntil test offset exit htarget =>
    have hregion := hobey exit (Program.jumpTarget?_eq_some (target_ok htarget)).1
    refine ⟨h.program, ?_, ?_⟩
    · change _ :: m.guards = (site (m.ip + 1)).loops ++ _
      rw [hregion, h.guards]
      rfl
    · have hblock : (site (m.ip + 1)).inBlock = (site m.ip).inBlock := by
        rw [hregion]
        rfl
      exact (grounded_congr hblock m.calls).mpr h.grounded
  | @call name place hlabel =>
    -- The label begins a block, whose activation has no loops yet; the caller waits
    -- behind the call.
    have htarget := Program.getElem?_of_labelBefore? hlabel
    rw [h.program] at htarget
    have hblock := (along_iff_getElem?.mp hobeys place _ htarget).1
    rw [Nat.zero_add] at hblock
    refine ⟨h.program, ?_, ?_, ?_⟩
    · change m.guards = (site place).loops ++ ((site (m.ip + 1)).loops ++ _)
      rw [hblock, hobey, h.guards]
      rfl
    · rw [hblock]
      rfl
    · exact hobey.grounded h.grounded
  | @ret place rest hcalls =>
    have hgrounded := h.grounded
    have hguards := h.guards
    rw [hcalls] at hgrounded hguards
    refine ⟨h.program, ?_, hgrounded.2⟩
    change m.guards = openLoops site place rest
    rw [hguards, openLoops, hobey]
    rfl
  | assign v => exact ⟨h.program, (h.goTo hobey).guards, (h.goTo hobey).grounded⟩
  | decrement v => exact ⟨h.program, (h.goTo hobey).guards, (h.goTo hobey).grounded⟩

/-! ### Reachable machines -/

/-- What the compiler lays down: instructions lead where their sites allow, and loops are marked by
their jumps back. -/
theorem compiled_sites (h : s.compile = .ok p) :
    Along (Obeys s.siteAt) 0 p.code ∧ ∀ place, (s.siteAt place).Marked s.siteAt := by
  obtain ⟨hlowers, -⟩ := Script.compile_ok h
  have htop : Region.top.Marked s.siteAt := by
    intro g hg
    cases hg
  refine ⟨hlowers.obeys s.framed, fun place => ?_⟩
  have hmarked := along_iff_getElem?.mp (hlowers.marked s.framed htop)
  cases hplace : p.code[place]? with
  | some i =>
    have hat := hmarked place i hplace
    rwa [Nat.zero_add] at hat
  | none =>
    have hend : sizeAll s ≤ place := by
      rw [← hlowers.length_eq]
      exact List.getElem?_eq_none_iff.mp hplace
    rw [Script.siteAt, List.getElem?_eq_none (by simpa using hend)]
    exact htop

theorem kept_bracketed (h : s.compile = .ok p) : Kept (Bracketed s.siteAt p) where
  start hm := ⟨hm.program, hm.guards, hm.grounded⟩
  stop hm := ⟨hm.program, hm.guards, hm.grounded⟩
  kill hm := ⟨hm.program, hm.guards, hm.grounded⟩
  moves hm hi hmoves := hm.moves (compiled_sites h).1 (compiled_sites h).2 hi hmoves

/-- Calls and loops of every reachable machine are well bracketed. -/
theorem bracketed_of_reachable (h : s.compile = .ok p) (hm : Reachable p m) :
    m.Bracketed s.siteAt p := by
  refine (kept_bracketed h).reachable (fun m₀ => ?_) hm
  have hentry := s.framed.entry
  refine ⟨rfl, ?_, ?_⟩
  · change [] = openLoops s.siteAt 0 []
    rw [openLoops, hentry]
    rfl
  · change (s.siteAt 0).inBlock = false
    rw [hentry]
    rfl

/-- An instruction of a compiled program always has somewhere to go. -/
theorem not_strays (h : s.compile = .ok p) (hm : m.Bracketed s.siteAt p) {i : Instruction}
    {f : Fault} (hi : m.instruction? = some i) : ¬ m.Strays i f := by
  have hcode : p.code[m.ip]? = some i := by
    rw [← hm.program]
    exact hi
  have hcheck : m.program.check = .ok () := by
    rw [hm.program]
    exact (Script.compile_ok h).2
  intro hstrays
  obtain ⟨-, rfl, hempty⟩ := strays_of_check hcheck hi hstrays
  -- A return stands in a block, where the machine is only after a call.
  have hblock := along_iff_getElem?.mp (compiled_sites h).1 m.ip .ret hcode
  rw [Nat.zero_add] at hblock
  have hgrounded := hm.grounded
  rw [hempty] at hgrounded
  change (s.siteAt m.ip).inBlock = false at hgrounded
  rw [hblock] at hgrounded
  cases hgrounded

/-- No step of a compiled program lacks a place to go on: neither a label, nor a call to return
from, nor a target within the program. -/
theorem compiled_step_has_target (h : s.compile = .ok p) (hm : Reachable p m) {σ : Type} {n : Nat}
    [ClientModel σ] (crew : Crew n) (every : Nat) (alarm : Alarm) (fuel : Nat) (w : World σ n) :
    (∀ name, (m.step crew every alarm fuel w).1 ≠ .failed (.labelNotFound name)) ∧
      (m.step crew every alarm fuel w).1 ≠ .failed .noCall ∧
      ∀ place offset length,
        (m.step crew every alarm fuel w).1 ≠ .failed (.jumpOutOfRange place offset length) := by
  have horderly : ∀ f : Fault, f.IsControl → (m.step crew every alarm fuel w).1 ≠ .failed f := by
    intro f hcontrol hfailed
    have hstep : m.step crew every alarm fuel w =
        (.failed f, (m.step crew every alarm fuel w).2.1,
          (m.step crew every alarm fuel w).2.2) := by
      rw [← hfailed]
    obtain ⟨-, -, -, i, hi, hstrays⟩ := step_failed hstep
    exact not_strays h (bracketed_of_reachable h hm) hi (hstrays hcontrol)
  exact ⟨fun name => horderly _ trivial, horderly _ trivial, fun _ _ _ => horderly _ trivial⟩

/-- A loop around the definition of a block, which has a loop too, and a call of it. In the inner
loop all clients use a potion. -/
def nestedLoops : Script :=
  [.untilLoop allFight
    [.block "f" [.untilLoop allFight [.command ⟨.all, .act .usePotion⟩]], .call "f"]]

/-- The code of the nested loops. -/
def nestedLoopsProgram : Program :=
  ⟨[.enterUntil allFight 12, .jump 7, .label "f", .enterUntil allFight 3, .act .all .usePotion,
    .jump (-1), .nop, .ret, .nop, .call "f", .nop, .jump (-10), .nop]⟩

theorem compile_nestedLoops : nestedLoops.compile = .ok nestedLoopsProgram := rfl

/-- The run that fails in the inner loop, as a client cannot tell whether it fights. -/
def innerLoopRun : RunResult × World Rehearsal 2 × Machine :=
  (idle.load nestedLoopsProgram).run pair 100 none 30 dazed

/-- The machine in the inner loop. -/
def innerLoopMachine : Machine := innerLoopRun.2.2

theorem reachable_innerLoopMachine : Reachable nestedLoopsProgram innerLoopMachine :=
  .run _ _ _ _ _ (.load idle)

/-- In the inner loop, the machine still has somewhere to go when it is taken up again. -/
theorem innerLoop_step_has_target :
    nestedLoops.compile = .ok nestedLoopsProgram ∧ innerLoopMachine.ip = 5 ∧
      innerLoopRun.2.1.history.map (Event.render pair) = ["0 p1 usepotion >", "0 p2 usepotion >",
        "20 p2 usepotion =", "50 p1 usepotion =", "50 p1 battle >", "100 p1 battle = true",
        "100 p2 battle >", "120 p2 battle !"] ∧
      ∀ fuel : Nat, (innerLoopMachine.start.step pair 100 ⟨none, none⟩ fuel innerLoopRun.2.1).1 ≠
        .failed .noCall :=
  ⟨compile_nestedLoops, rfl, rfl, fun fuel => (compiled_step_has_target compile_nestedLoops
    reachable_innerLoopMachine.start pair 100 ⟨none, none⟩ fuel innerLoopRun.2.1).2.1⟩

/-- The loops of a machine are those around its activations; a jump is taken for the end of one
exactly if it is the jump back of an `until` loop; and behind the program there are no loops and no
calls. -/
theorem guards_eq_openLoops (h : s.compile = .ok p) (hm : Reachable p m) :
    m.guards = openLoops s.siteAt m.ip m.calls ∧
      (∀ offset, m.instruction? = some (.jump offset) →
        ((∃ g outer, m.guards = g :: outer ∧ m.closes g = true) ↔ (s.siteAt m.ip).closing = true)) ∧
      (m.ip = p.length → m.guards = [] ∧ m.calls = []) := by
  have hbracketed := bracketed_of_reachable h hm
  obtain ⟨hobeys, hmarked⟩ := compiled_sites h
  refine ⟨hbracketed.guards, fun offset hi => ⟨?_, fun hclosing => ?_⟩, fun hend => ?_⟩
  · rintro ⟨g, outer, hg, hc⟩
    exact hbracketed.closing_of_closes hmarked hg hc
  · have hcode : p.code[m.ip]? = some (.jump offset) := by
      rw [← hbracketed.program]
      exact hi
    have hobey := along_iff_getElem?.mp hobeys m.ip _ hcode
    rw [Nat.zero_add] at hobey
    obtain ⟨g, hexit, hguards, -⟩ := hbracketed.guards_of_closing hobey hclosing
    exact ⟨g, _, hguards, by simp [closes, hexit]⟩
  · have hregion : (s.siteAt m.ip).toRegion = .top := by
      have hbehind := s.framed.2
      rwa [Nat.zero_add, ← (Script.compile_ok h).1.length_eq, ← Program.length, ← hend] at hbehind
    have hcalls : m.calls = [] := by
      have hgrounded := hbracketed.grounded
      cases hcalls : m.calls with
      | nil => rfl
      | cons back rest =>
        rw [hcalls] at hgrounded
        have hblock := hgrounded.1
        rw [hregion] at hblock
        cases hblock
    refine ⟨?_, hcalls⟩
    rw [hbracketed.guards, hcalls, openLoops, hregion]
    rfl

/-- In the inner loop, its own guard comes first and that of the loop around the call second. -/
theorem innerLoop_guards :
    nestedLoops.compile = .ok nestedLoopsProgram ∧ innerLoopMachine.calls = [10] ∧
      innerLoopMachine.guards = [⟨allFight, 6⟩, ⟨allFight, 12⟩] ∧
      innerLoopMachine.guards =
        openLoops nestedLoops.siteAt innerLoopMachine.ip innerLoopMachine.calls :=
  ⟨compile_nestedLoops, rfl, rfl,
    (guards_eq_openLoops compile_nestedLoops reachable_innerLoopMachine).1⟩

end Machine

end BotScript
