import Mathlib
import BotScript.CommandLine.Run
import BotScript.Proofs.Machine.Tally

/-!
# Dry runs with a limit

The run of a program on dry-run clients goes on until the machine stops or an instruction fails, or
for ever. With a limit it is the same run, cut off: as long as no instruction fails on the way, the
first instructions are carried out, as many as the limit allows, and the report speaks of just
these. There is one exception: the program without instructions, for which a step is counted in
which nothing is carried out.

## Main definitions

* `DryRun.Carries`, `DryRun.Fails`: what a step on dry-run clients comes to.
* `DryRun.Course`: the run of a program without a limit, instruction by instruction.
* `DryRun.Course.printed`: the report on the first instructions of it.

## Main results

* `DryRun.exists_course`: every program has its course, unless it has no instructions.
* `DryRun.Course.rehearse_eq`, `DryRun.Course.rehearse_outOfFuel`: a dry run, as far as
  the limit goes.
* `DryRun.limited_is_prefix`: a limited dry run carries out the first instructions of the course.
-/

namespace BotScript.DryRun

open World

variable {n every : Nat} {p : Program} {w w' : World DryRun n} {m m' : Machine} {i : Instruction}

/-- A machine carries out its next instruction on dry-run clients. -/
def Carries (every : Nat) (i : Instruction) (w : World DryRun n) (m : Machine) (w' : World DryRun n)
    (m' : Machine) :
    Prop :=
  m.running = true ∧ m.instruction? = some i ∧
    ∃ fuel r, m.step (crew n) every ⟨none, none⟩ fuel w = (r, w', m') ∧ r.isDone = true

/-- The next instruction of a machine fails on dry-run clients. -/
def Fails (every : Nat) (w : World DryRun n) (m : Machine) : Prop :=
  ∃ fuel f w' m', m.step (crew n) every ⟨none, none⟩ fuel w = (.failed f, w', m')

/-- An instruction that is carried out with some fuel does not fail with any. -/
theorem not_fails_of_isDone (fuel : Nat) {r : Machine.StepResult}
    (hstep : m.step (crew n) every ⟨none, none⟩ fuel w = (r, w', m')) (hdone : r.isDone = true) :
    ¬ Fails every w m := by
  rintro ⟨fuel', f, v, m'', hfails⟩
  have hsame := Machine.step_unique hstep (Machine.StepResult.ne_outOfFuel hdone) hfails nofun
  obtain rfl : r = .failed f := congrArg Prod.fst hsame
  cases hdone

/-- The run of a program on new dry-run clients, without a limit: how many instructions are carried
out, which ones, and where everything stands before each of them. It ends when the machine stops or
an instruction fails. -/
structure Course (n every : Nat) (p : Program) where
  length : ENat
  code : Nat → Instruction
  world : Nat → World DryRun n
  machine : Nat → Machine
  world_zero : world 0 = .initial (Vector.replicate n .fresh)
  machine_zero : machine 0 = (Machine.idle.load p).start
  carries : ∀ k : Nat, k < length →
    Carries every (code k) (world k) (machine k) (world (k + 1)) (machine (k + 1))
  ends : ∀ k : Nat, k = length → (machine k).running = false ∨ Fails every (world k) (machine k)

/-! ### Every program has its course -/

/-- Where a relation leads from a point, for ever or until there is no way on. -/
theorem exists_orbit {S : Type} (R : S → S → Prop) (start : S) :
    ∃ (length : ENat) (orbit : Nat → S), orbit 0 = start ∧
      (∀ k : Nat, k < length → R (orbit k) (orbit (k + 1))) ∧ ∀ k : Nat, k = length →
      ∀ t, ¬ R (orbit k) t := by
  classical
  let next : S → S := fun s => if h : ∃ t, R s t then h.choose else s
  let orbit : Nat → S := fun k => next^[k] start
  have hnext : ∀ k, (∃ t, R (orbit k) t) → R (orbit k) (orbit (k + 1)) := by
    intro k h
    have horbit : orbit (k + 1) = next (orbit k) := Function.iterate_succ_apply' next k start
    rw [horbit]
    simp only [next, dif_pos h]
    exact h.choose_spec
  by_cases hstops : ∃ k, ¬ ∃ t, R (orbit k) t
  · refine ⟨Nat.find hstops, orbit, rfl, fun k hk => hnext k ?_, fun k hk t ht => ?_⟩
    · exact Classical.not_not.1 (Nat.find_min hstops (ENat.natCast_lt_natCast.1 hk))
    · rw [ENat.natCast_inj.1 hk] at ht
      exact Nat.find_spec hstops ⟨t, ht⟩
  · refine ⟨⊤, orbit, rfl, fun k _ => hnext k ?_, fun k hk => absurd hk (ENat.natCast_ne_top k)⟩
    by_contra hnot
    exact hstops ⟨k, hnot⟩

/-- Nobody claims the input focus, and a machine that is running has an instruction to
go on with. -/
def Ready (w : World DryRun n) (m : Machine) : Prop :=
  w.claims = [] ∧ (m.running = true → ∃ i, m.instruction? = some i)

/-- A machine that has just been moved has an instruction to go on with, unless it is stopped. -/
theorem instruction_of_settle (m : Machine) (hrunning : m.settle.running = true) :
    ∃ i, m.settle.instruction? = some i := by
  unfold Machine.settle at hrunning ⊢
  split at hrunning
  · cases hrunning
  · rename_i hlt
    rw [if_neg hlt]
    exact ⟨_, List.getElem?_eq_getElem (Nat.lt_of_not_le hlt)⟩

/-- From where everything is ready, there is a next instruction, or the run has come to its end. -/
theorem Ready.next (h : Ready w m) (every : Nat) :
    (∃ i w' m', Carries every i w m w' m' ∧ Ready w' m') ∨ m.running = false ∨ Fails every w m := by
  by_cases hrunning : m.running = true
  · obtain ⟨i, hi⟩ := h.2 hrunning
    obtain ⟨enough, r, w', m', hstep, hfree, hend⟩ :=
      Machine.exists_dry_step (crew_apart n) every h.1 hrunning hi
    have hstep := hstep enough (Nat.le_refl _)
    rcases hend with ⟨hdone, -⟩ | ⟨f, rfl, -⟩
    · obtain ⟨u, effect, -, -, rfl⟩ := Machine.run_of_isDone hrunning hi hstep hdone
      exact .inl ⟨i, w', _, ⟨hrunning, hi, enough, r, hstep, hdone⟩, hfree, instruction_of_settle _⟩
    · exact .inr (.inr ⟨enough, f, w', m', hstep⟩)
  · exact .inr (.inl (by simpa using hrunning))

/-- Every program that has instructions has its course. -/
theorem exists_course (n every : Nat) (hp : p.code ≠ []) : Nonempty (Course n every p) := by
  have hfirst : (Machine.idle.load p).start.instruction? = p.code[0]? := rfl
  have hready : Ready (World.initial (Vector.replicate n .fresh)) (Machine.idle.load p).start :=
    ⟨rfl, fun _ => ⟨p.code.head
      hp, by rw [hfirst, ← List.head?_eq_getElem?, List.head?_eq_some_head hp]⟩⟩
  obtain ⟨length, orbit, hzero, hcarries, hends⟩ := exists_orbit
    (fun s t : World DryRun n × Machine => ∃ i, Carries every i s.1 s.2 t.1 t.2 ∧ Ready t.1 t.2)
    (.initial (Vector.replicate n .fresh), (Machine.idle.load p).start)
  have hall : ∀ k : Nat, k ≤ length → Ready (orbit k).1 (orbit k).2 := by
    intro k hk
    cases k with
    | zero =>
      rw [hzero]
      exact hready
    | succ k =>
      obtain ⟨-, -, hnext⟩ :=
        hcarries k (lt_of_lt_of_le (ENat.natCast_lt_natCast.2 (Nat.lt_succ_self k)) hk)
      exact hnext
  refine ⟨⟨length, fun k => ((orbit k).2.instruction?).getD .nop, fun k => (orbit k).1,
    fun k => (orbit k).2, by rw [hzero], by rw [hzero], fun k hk => ?_, fun k hk => ?_⟩⟩
  · obtain ⟨i, hcarries, -⟩ := hcarries k hk
    rw [hcarries.2.1]
    exact hcarries
  · rcases (hall k (le_of_eq hk)).next every with ⟨i, w', m', hnext, hready⟩ | hend
    · exact absurd ⟨i, hnext, hready⟩ (hends k hk (w', m'))
    · exact hend

/-! ### The report -/

namespace Course

variable (c : Course n every p)

/-- How many of the first instructions act on a client. -/
def deeds (j : Fin n) (k : Nat) : Nat := (List.range k).countP fun t => (c.code t).actsOn j

/-- The report on the first instructions: that they are not all, how many they are, whether the
machine was killed, and how many of them act on each client. -/
def printed (k : Nat) : String :=
  (if (c.machine k).running
    then "Stopped after " ++ toString k ++ " steps (--max-steps)\n" else "") ++
    "Steps: " ++ toString k ++ "\n" ++ "Killed: " ++ toString (c.machine k).killed ++ "\n" ++
    String.join ((List.finRange n).map fun j =>
      "  p" ++ toString (j.val + 1) ++ ": " ++ toString (c.deeds j k % UInt64.size) ++
        " action(s)\n")

theorem deeds_succ (j : Fin n) (k : Nat) :
    c.deeds j (k + 1) = c.deeds j k + if (c.code k).actsOn j then 1 else 0 := by
  rw [deeds, List.range_succ, List.countP_append, List.countP_singleton]
  rfl

/-- The actions that were begun by a place in the course, and that the clients have counted. -/
theorem world_deeds {k : Nat} (hk : k ≤ c.length) :
    (c.world k).Tallied ∧ ∀ j, (c.world k).deeds j = c.deeds j k := by
  induction k with
  | zero =>
    rw [c.world_zero]
    refine ⟨fun j => ?_, fun j => rfl⟩
    have hfresh : (Vector.replicate n DryRun.fresh).get j = .fresh :=
      Vector.getElem_replicate j.isLt
    rw [show (World.initial (Vector.replicate n DryRun.fresh)).clients.get j = .fresh from hfresh]
    rfl
  | succ k ih =>
    have hlt : k < c.length := lt_of_lt_of_le (ENat.natCast_lt_natCast.2 (Nat.lt_succ_self k)) hk
    obtain ⟨htallied, hdeeds⟩ := ih (le_of_lt hlt)
    obtain ⟨hrunning, hi, fuel, r, hstep, hdone⟩ := c.carries k hlt
    refine ⟨Machine.tallied_of_isDone hrunning hi hstep hdone htallied, fun j => ?_⟩
    rw [Machine.deeds_of_isDone hrunning hi hstep hdone j, hdeeds j, c.deeds_succ]

theorem clientLine_eq {k : Nat} (hk : k ≤ c.length) (j : Fin n) :
    clientLine (c.world k) j =
      "  p" ++ toString (j.val + 1) ++ ": " ++ toString (c.deeds j k % UInt64.size) ++
      " action(s)\n" := by
  obtain ⟨htallied, hdeeds⟩ := c.world_deeds hk
  have hhandle : (crew n).get j = ⟨"p" ++ toString (j.val + 1), none⟩ := Vector.getElem_ofFn j.isLt
  have hcount : (UInt64.ofNat (c.deeds j k)).toNat = c.deeds j k % UInt64.size :=
    UInt64.toNat_ofNat'
  rw [clientLine, Crew.title, hhandle, htallied j, hdeeds j, hcount, ← String.append_assoc]
  rfl

/-- The report of a dry run that ends at a place in the course. -/
theorem report_eq {k : Nat} (hk : k ≤ c.length) :
    (⟨.stopped (c.machine k).running, k, c.world k, (c.machine k).stop⟩ : Finished n).report =
      c.printed k := by
  have hlines : (List.finRange n).map (clientLine (c.world k)) = (List.finRange n).map fun j =>
      "  p" ++ toString (j.val + 1) ++ ": " ++ toString (c.deeds j k % UInt64.size) ++
        " action(s)\n" :=
    List.map_congr_left fun j _ => c.clientLine_eq hk j
  rw [printed, ← hlines]
  cases hrunning : (c.machine k).running <;> rfl

end Course

/-! ### The limit -/

/-- A limit as a number that may be infinite. -/
def bound : Option Nat → ENat
  | some l => l
  | none => ⊤

theorem any_le_eq_false {limit : Option Nat} {k : Nat} (h : k < bound limit) :
    limit.any (· ≤ k) = false := by
  cases limit with
  | none => rfl
  | some l => simpa [bound] using h

/-- A step that is done, in a dry run with fuel for it. -/
theorem rehearse_of_isDone {limit : Option Nat} {fuel k : Nat} {r : Machine.StepResult}
    (hrunning : m.running = true) (hlimit : limit.any (· ≤ k) = false)
    (hstep : m.step (crew n) every ⟨none, none⟩ fuel w = (r, w', m')) (hdone : r.isDone = true) :
    rehearse (crew n) every limit (fuel + 1) k w m =
      rehearse (crew n) every limit fuel (k + 1) w' m' := by
  cases r with
  | goesOn lines =>
    simp only [rehearse, hrunning, hlimit, hstep, Bool.not_true, Bool.false_eq_true, if_false]
  | done lines =>
    simp only [rehearse, hrunning, hlimit, hstep, Bool.not_true, Bool.false_eq_true, if_false]
  | failed | cancelled | expired | never | outOfFuel => cases hdone

namespace Course

variable (c : Course n every p) {limit : Option Nat}

/-- From a place in the course, a dry run comes to where it stops, with enough fuel. -/
theorem rehearse_eq {k : Nat} (hlength : k ≤ c.length) (hbound : k ≤ bound limit)
    (hstops : (c.machine k).running = true → limit = some k) (left : Nat) :
    ∀ j, j + left = k → ∃ enough, ∀ fuel ≥ enough,
      rehearse (crew n) every limit fuel j (c.world j) (c.machine j) =
        ⟨.stopped (c.machine k).running, k, c.world k, (c.machine k).stop⟩ := by
  induction left with
  | zero =>
    intro j hj
    obtain rfl : j = k := hj
    refine ⟨1, fun fuel hfuel => ?_⟩
    obtain ⟨fuel, rfl⟩ := Nat.exists_eq_add_of_le' hfuel
    cases hrunning : (c.machine j).running with
    | false =>
      have hstop : (c.machine j).stop = c.machine j := by rw [Machine.stop, ← hrunning]
      simp only [rehearse, hrunning, hstop, Bool.not_false, if_true]
    | true =>
      obtain rfl := hstops hrunning
      simp [rehearse, hrunning]
  | succ left ih =>
    intro j hj
    have hjk : j < k := by omega
    obtain ⟨hrunning, hi, least, r, hstep, hdone⟩ :=
      c.carries j (lt_of_lt_of_le (ENat.natCast_lt_natCast.2 hjk) hlength)
    obtain ⟨enough, hrest⟩ := ih (j + 1) (by omega)
    refine ⟨max least enough + 1, fun fuel hfuel => ?_⟩
    obtain ⟨fuel, rfl⟩ := Nat.exists_eq_add_of_le' (Nat.one_le_of_lt hfuel)
    have hlimit := any_le_eq_false (lt_of_lt_of_le (ENat.natCast_lt_natCast.2 hjk) hbound)
    have hmore := Machine.step_eq_of_le (by omega : least ≤ fuel) hstep
      (Machine.StepResult.ne_outOfFuel hdone)
    rw [rehearse_of_isDone hrunning hlimit hmore hdone]
    exact hrest fuel (by omega)

/-- A dry run of a course without an end, and without a limit, has no end. -/
theorem rehearse_outOfFuel (hlength : c.length = ⊤) (fuel : Nat) :
    ∀ k, (rehearse (crew n) every none fuel k (c.world k) (c.machine k)).ending = .outOfFuel := by
  induction fuel with
  | zero => exact fun _ => rfl
  | succ fuel ih =>
    intro k
    obtain ⟨hrunning, hi, least, r, hstep, hdone⟩ := c.carries k (hlength ▸ ENat.natCast_lt_top k)
    rcases hnow : (c.machine k).step (crew n) every ⟨none, none⟩ fuel (c.world k) with ⟨r', w', m'⟩
    by_cases hfuel : r' = .outOfFuel
    · subst hfuel
      simp [rehearse, hrunning, hnow]
    · -- Fuel apart, a step has one end.
      rw [← Machine.step_unique hstep (Machine.StepResult.ne_outOfFuel hdone) hnow hfuel] at hnow
      rw [rehearse_of_isDone hrunning rfl hnow hdone]
      exact ih (k + 1)

end Course

/-- A limited dry run carries out the first instructions of the unlimited one, as many as the limit
allows, if none of these fails. It reports that they are not all exactly if the machine has not
stopped by then, and it reports how many they are and, as far as a word of 64 bits goes, how many of
them act on each client. A dry run that has neither a limit nor an end does not come to a report. -/
theorem limited_is_prefix (n every : Nat) (p : Program) (hp : p.code ≠ []) :
    ∃ c : Course n every p, ∀ limit : Option Nat,
      (∀ k : Nat, k = c.length → Fails every (c.world k) (c.machine k) → bound limit ≤ k) →
      (∀ k : Nat, k = min (bound limit) c.length → ∃ enough, ∀ fuel ≥ enough,
        ofProgram n every limit fuel p =
            ⟨.stopped (c.machine k).running, k, c.world k, (c.machine k).stop⟩ ∧
          (CommandLine.dryRunResult (ofProgram n every limit fuel p)).output = c.printed k) ∧
      (min (bound limit) c.length = ⊤ → ∀ fuel, (ofProgram n every limit fuel p).ending =
        .outOfFuel) := by
  obtain ⟨c⟩ := exists_course n every hp
  have hstart : ∀ limit fuel, ofProgram n every limit fuel p =
      rehearse (crew n) every limit fuel 0 (c.world 0) (c.machine 0) := by
    intro limit fuel
    rw [c.world_zero, c.machine_zero]
    rfl
  refine ⟨c, fun limit hsound => ⟨fun k hk => ?_, fun htop fuel => ?_⟩⟩
  · have hlength : k ≤ c.length := hk ▸ min_le_right _ _
    have hbound : k ≤ bound limit := hk ▸ min_le_left _ _
    have hstops : (c.machine k).running = true → limit = some k := by
      intro hrunning
      have hle : bound limit ≤ k := by
        rcases min_choice (bound limit) c.length with hmin | hmin
        · rw [hk, hmin]
        · rw [hmin] at hk
          rcases c.ends k hk with hnot | hfails
          · rw [hrunning] at hnot
            cases hnot
          · exact hsound k hk hfails
      cases limit with
      | none => exact absurd (top_le_iff.1 hle) (ENat.natCast_ne_top k)
      | some l => exact congrArg some (ENat.natCast_inj.1 (le_antisymm hle hbound))
    obtain ⟨enough, hends⟩ := c.rehearse_eq hlength hbound hstops k 0 (Nat.zero_add k)
    refine ⟨enough, fun fuel hfuel => ?_⟩
    have hend : ofProgram n every limit fuel p =
        ⟨.stopped (c.machine k).running, k, c.world k, (c.machine k).stop⟩ := by
      rw [hstart, hends fuel hfuel]
    rw [hend]
    exact ⟨rfl, c.report_eq hlength⟩
  · have hnone : limit = none := by
      cases limit with
      | none => rfl
      | some l => exact absurd (top_le_iff.1 (htop ▸ min_le_left _ _)) (ENat.natCast_ne_top l)
    have hlength : c.length = ⊤ := top_le_iff.1 (htop ▸ min_le_right _ _)
    rw [hstart, hnone]
    exact c.rehearse_outOfFuel hlength fuel 0

/-- Everybody takes a potion and the second client logs in anew, again and again. -/
def rounds : Program :=
  ⟨[.act .all .usePotion, .act (.only Machine.secondClient) .relog, .jump (-2)]⟩

example : (ofProgram 2 250 (some 5) 60 rounds).report =
    "Stopped after 5 steps (--max-steps)\nSteps: 5\nKilled: false\n" ++
      "  p1: 2 action(s)\n  p2: 4 action(s)\n" := by
  rfl

/-- With a limit of one, everybody takes a potion, and that is all. -/
theorem rounds_limited :
    rounds.code ≠ [] ∧ ∃ c : Course 2 250 rounds, 1 = min (bound (some 1)) c.length ∧
      ∃ enough, ∀ fuel ≥ enough,
        ofProgram 2 250 (some 1) fuel rounds =
            ⟨.stopped (c.machine 1).running, 1, c.world 1, (c.machine 1).stop⟩ ∧
          (CommandLine.dryRunResult (ofProgram 2 250 (some 1) fuel rounds)).output =
            c.printed 1 := by
  obtain ⟨c, hc⟩ := limited_is_prefix 2 250 rounds (List.cons_ne_nil _ _)
  have hzero : ∀ k : Nat, k = c.length → k ≠ 0 := by
    rintro k hk rfl
    rcases c.ends 0 hk with hnot | hfails
    · rw [c.machine_zero] at hnot
      cases hnot
    · rw [c.world_zero, c.machine_zero] at hfails
      exact not_fails_of_isDone 20 rfl rfl hfails
  have hone : 1 = min (bound (some 1)) c.length := by
    refine (min_eq_left (Order.one_le_iff_pos.2 (pos_iff_ne_zero.2 ?_))).symm
    exact fun hlength => hzero 0 hlength.symm rfl
  refine ⟨List.cons_ne_nil _ _, c, hone, (hc (some 1) fun k hk _ => ?_).1 1 hone⟩
  exact ENat.natCast_le_natCast.2 (Nat.one_le_iff_ne_zero.2 (hzero k hk))

/-- The script without statements is compiled to the program without instructions. None can be
carried out, but one is reported. -/
theorem emptiness_counts_as_one :
    Script.compile [] = .ok ⟨[]⟩ ∧
      (∀ i w m, ¬ Carries 250 i (World.initial (Vector.replicate 1 .fresh))
        (Machine.idle.load ⟨[]⟩).start w m) ∧
      (CommandLine.dryRunResult (ofProgram 1 250 none 10 ⟨[]⟩)).output =
        "Steps: 1\nKilled: false\n  p1: 0 action(s)\n" := by
  refine ⟨rfl, ?_, rfl⟩
  rintro i w m ⟨-, hnone, -⟩
  cases hnone

end BotScript.DryRun
