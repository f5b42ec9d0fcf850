import Mathlib.Algebra.Group.Int.Defs
import Mathlib.Algebra.Group.Nat.Defs
import BotScript.Proofs.Client.Cast
import BotScript.Proofs.Machine.Reachable
import BotScript.Proofs.Program.Lowering

/-!
# Places stay within the program

The place of a machine, the places it returns to and the ends of its loops never leave the program,
whatever program it has and whatever is done with it: a jump goes to the exact sum of its place and
its offset, or nowhere. A program that has been checked has a target for every jump and every call,
so no step of it fails for lack of one.

## Main definitions

* `Machine.Attained`: the machines that come of any sequence of controls, steps and runs.
* `Machine.InRange`: all places of a machine are within its program.
* `Program.wordTarget?`: where a jump goes, computed on machine words.

## Main results

* `Program.wordTarget?_eq`: on machine words, the sum of a place and an offset does not wrap around.
* `Machine.kept_inRange`: steps and controls keep places within the program.
* `Machine.strays_of_check`: an instruction of a checked program lacks no target.
* `Machine.attained_inRange`: places stay within the program, and checked programs do not stray.
-/

namespace BotScript

open Cast

/-! ### Targets of jumps -/

namespace Program

variable {p : Program} {place target : Nat} {offset : Int64}

/-- A jump goes to the exact sum of its place and its offset, if that is within the program or right
behind it. -/
theorem jumpTarget?_eq_some_iff :
    p.jumpTarget? place offset = some target ↔
      (target : Int) = place + offset.toInt ∧ target ≤ p.length := by
  constructor
  · intro h
    obtain ⟨hsum, hle⟩ := jumpTarget?_eq_some h
    exact ⟨hsum.symm, hle⟩
  · rintro ⟨hsum, hle⟩
    have hrange : 0 ≤ Int.ofNat place + offset.toInt ∧
        Int.ofNat place + offset.toInt ≤ p.length := by
      rw [Int.ofNat_eq_natCast]
      omega
    unfold jumpTarget?
    dsimp only
    rw [if_pos hrange, Int.ofNat_eq_natCast, ← hsum, Int.toNat_natCast]

/-- A jump goes nowhere exactly if the sum leaves the program. -/
theorem jumpTarget?_eq_none_iff :
    p.jumpTarget? place offset = none ↔
      (place : Int) + offset.toInt < 0 ∨ (p.length : Int) < place + offset.toInt := by
  rw [Option.eq_none_iff_forall_ne_some]
  constructor
  · intro hnone
    have hsum := hnone ((place : Int) + offset.toInt).toNat
    rw [Ne, jumpTarget?_eq_some_iff] at hsum
    omega
  · intro hrange target htarget
    obtain ⟨hsum, hle⟩ := jumpTarget?_eq_some_iff.mp htarget
    omega

/-- The sum of a word and a signed word, unless it is no word: there is a carry exactly if the
offset is negative. -/
def wordSum? (place : UInt64) (offset : Int64) : Option UInt64 :=
  let sum := place + offset.toUInt64
  if decide (sum < place) = decide (offset < 0) then some sum else none

/-- Where a jump goes, computed on machine words. -/
def wordTarget? (p : Program) (place : UInt64) (offset : Int64) : Option Nat :=
  ((wordSum? place offset).map UInt64.toNat).filter (· ≤ p.length)

/-- A signed word as an unsigned one. -/
theorem toNat_toUInt64 (offset : Int64) :
    (offset.toUInt64.toNat : Int) =
      if offset.toInt < 0 then offset.toInt + 2 ^ 64 else offset.toInt := by
  have hnat : offset.toUInt64.toNat = offset.toBitVec.toNat := rfl
  have hint : offset.toInt = offset.toBitVec.toInt := rfl
  have hlt := offset.toBitVec.isLt
  rw [hnat, hint, BitVec.toInt_eq_toNat_cond]
  split <;> split <;> omega

/-- The sum of words is the exact one, if that is a word, and else there is none. -/
theorem wordSum?_eq_some_iff {place sum : UInt64} :
    wordSum? place offset = some sum ↔ (sum.toNat : Int) = place.toNat + offset.toInt := by
  have hoffset := toNat_toUInt64 offset
  have hadd := UInt64.toNat_add place offset.toUInt64
  have hplace := place.toNat_lt
  have hsum := sum.toNat_lt
  have hword := offset.toUInt64.toNat_lt
  have hneg : offset < 0 ↔ offset.toInt < 0 := Int64.lt_iff_toInt_lt
  have hcarry : place + offset.toUInt64 < place ↔
      (place + offset.toUInt64).toNat < place.toNat := UInt64.lt_iff_toNat_lt
  unfold wordSum?
  simp only [decide_eq_decide, hneg, hcarry, Option.ite_none_right_eq_some, Option.some.injEq,
    ← UInt64.toNat_inj]
  split at hoffset <;> omega

/-- On machine words, the sum of a place and an offset does not wrap around: the target
is the same. -/
theorem wordTarget?_eq (hlength : p.length < 2 ^ 64) (place : UInt64) (offset : Int64) :
    p.wordTarget? place offset = p.jumpTarget? place.toNat offset := by
  refine Option.ext fun target => ?_
  rw [jumpTarget?_eq_some_iff, wordTarget?]
  simp only [Option.filter_eq_some_iff, Option.map_eq_some_iff, decide_eq_true_eq,
    wordSum?_eq_some_iff]
  constructor
  · rintro ⟨⟨sum, hsum, rfl⟩, hle⟩
    exact ⟨hsum, hle⟩
  · rintro ⟨hsum, hle⟩
    -- A place within the program is a word.
    have hlt : target < 2 ^ 64 := Nat.lt_of_le_of_lt hle hlength
    have hword : (UInt64.ofNat target).toNat = target := UInt64.toNat_ofNat_of_lt' hlt
    exact ⟨⟨UInt64.ofNat target, by rw [hword, hsum], hword⟩, hle⟩

end Program

namespace Machine

variable {m : Machine}

theorem target_ok {offset : Int64} {place : Nat} (h : m.target offset = .ok place) :
    m.program.jumpTarget? m.ip offset = some place := by
  unfold target at h
  split at h
  · rename_i htarget
    cases h
    exact htarget
  · cases h

theorem target_error {offset : Int64} {f : Fault} (h : m.target offset = .error f) :
    m.program.jumpTarget? m.ip offset = none := by
  unfold target at h
  split at h
  · cases h
  · rename_i htarget
    exact htarget

/-- An instruction of a checked program lacks no target: only a return may have nowhere to go. -/
theorem strays_of_check (hcheck : m.program.check = .ok ()) {i : Instruction} {f : Fault}
    (hi : m.instruction? = some i) (h : m.Strays i f) : f = .noCall ∧ i = .ret ∧ m.calls = [] := by
  obtain ⟨hjumps, hcalls⟩ := Program.check_ok hcheck hi
  cases h with
  | jump hoffset htarget =>
    obtain ⟨target, hsome⟩ := hjumps _ hoffset
    have hnone := target_error htarget
    rw [hsome] at hnone
    cases hnone
  | call hlabel =>
    obtain ⟨target, hsome⟩ := hcalls _ rfl
    rw [hsome] at hlabel
    cases hlabel
  | ret hempty => exact ⟨rfl, rfl, hempty⟩

/-! ### Places of a machine -/

/-- The machines that come of any sequence of controls, steps and runs, whatever programs are loaded
on the way and whatever the clients do. -/
inductive Attained : Machine → Prop
  | idle : Attained idle
  | load (p : Program) {m : Machine} (h : Attained m) : Attained (m.load p)
  | reset {m : Machine} (h : Attained m) : Attained m.reset
  | start {m : Machine} (h : Attained m) : Attained m.start
  | stop {m : Machine} (h : Attained m) : Attained m.stop
  | kill {m : Machine} (h : Attained m) : Attained m.kill
  | step {σ : Type} {n : Nat} [ClientModel σ] (crew : Crew n) (every : Nat) (alarm : Alarm)
      (fuel : Nat) (w : World σ n) {m : Machine} (h : Attained m) :
      Attained (m.step crew every alarm fuel w).2.2
  | run {σ : Type} {n : Nat} [ClientModel σ] (crew : Crew n) (every : Nat) (expire : Option Nat)
      (fuel : Nat) (w : World σ n) {m : Machine} (h : Attained m) :
      Attained (m.run crew every expire fuel w).2.2
  | runUntilCancelled {σ : Type} {n : Nat} [ClientModel σ] (crew : Crew n) (every : Nat)
      (token : Token) (expire : Option Nat) (fuel : Nat) (w : World σ n) {m : Machine}
      (h : Attained m) : Attained (m.runUntilCancelled crew every token expire fuel w).2.2

/-- What counts of a history is what was done since the last program was loaded; a machine without
one has the empty program. -/
theorem Attained.exists_reachable (h : Attained m) : ∃ p, Reachable p m := by
  induction h with
  | idle => exact ⟨.empty, .load .idle⟩
  | @load p m _ _ => exact ⟨p, .load m⟩
  | @reset m _ _ => exact ⟨.empty, .load m⟩
  | start _ ih => exact ih.imp fun _ => .start
  | stop _ ih => exact ih.imp fun _ => .stop
  | kill _ ih => exact ih.imp fun _ => .kill
  | step crew every alarm fuel w _ ih => exact ih.imp fun _ => .step crew every alarm fuel w
  | run crew every expire fuel w _ ih => exact ih.imp fun _ => .run crew every expire fuel w
  | runUntilCancelled crew every token expire fuel w _ ih =>
    exact ih.imp fun _ => .runUntilCancelled crew every token expire fuel w

/-- All places of a machine are within its program, or right behind it. -/
structure InRange (m : Machine) : Prop where
  ip : m.ip ≤ m.program.length
  /-- A machine never returns to the first instruction. -/
  calls : ∀ back ∈ m.calls, 1 ≤ back ∧ back ≤ m.program.length
  guards : ∀ g ∈ m.guards, g.exit ≤ m.program.length

theorem InRange.goTo (h : m.InRange) {place : Nat} (hplace : place ≤ m.program.length) :
    (m.goTo place).InRange :=
  ⟨hplace, h.calls, h.guards⟩

theorem InRange.goTo_target (h : m.InRange) {offset : Int64} {place : Nat}
    (htarget : m.target offset = .ok place) : (m.goTo place).InRange :=
  h.goTo (Program.jumpTarget?_eq_some (target_ok htarget)).2

theorem inRange_load (m : Machine) (p : Program) : (m.load p).InRange := by
  refine ⟨Nat.zero_le _, ?_, ?_⟩
  · intro back hback
    cases hback
  · intro g hg
    cases hg

/-- An instruction leads to places within the program only. -/
theorem InRange.moves (h : m.InRange) {i : Instruction} {m' : Machine}
    (hi : m.instruction? = some i) (hmoves : m.Moves i m') : m'.InRange := by
  have hip : m.ip + 1 ≤ m.program.length := (List.getElem?_eq_some_iff.mp hi).1
  have hnext : m.next.InRange := h.goTo hip
  cases hmoves with
  | kill => exact ⟨h.ip, h.calls, h.guards⟩
  | plain hplain => exact hnext
  | @leave offset g outer hg hc =>
    -- The end of the loop was in range when the loop was entered.
    have hguards := h.guards
    rw [hg] at hguards
    exact ⟨hguards g List.mem_cons_self, h.calls,
      fun g' hg' => hguards g' (List.mem_cons_of_mem g hg')⟩
  | jump htarget => exact h.goTo_target htarget
  | jumpIf htarget => exact h.goTo_target htarget
  | stayIf => exact hnext
  | jumpIfNot htarget => exact h.goTo_target htarget
  | stayIfNot => exact hnext
  | enterUntil htarget =>
    refine ⟨hnext.ip, hnext.calls, ?_⟩
    intro g hg
    rcases List.mem_cons.mp hg with rfl | hg
    · exact (h.goTo_target htarget).ip
    · exact h.guards g hg
  | call hlabel =>
    refine ⟨?_, ?_, h.guards⟩
    · exact Nat.le_of_lt (List.getElem?_eq_some_iff.mp (Program.getElem?_of_labelBefore? hlabel)).1
    · intro back hback
      rcases List.mem_cons.mp hback with rfl | hback
      · exact ⟨Nat.succ_pos _, hip⟩
      · exact h.calls back hback
  | @ret place rest hcalls =>
    have hback := h.calls
    rw [hcalls] at hback
    exact ⟨(hback place List.mem_cons_self).2, fun b hb => hback b (List.mem_cons_of_mem place hb),
      h.guards⟩
  | assign v => exact ⟨hnext.ip, hnext.calls, hnext.guards⟩
  | decrement v => exact ⟨hnext.ip, hnext.calls, hnext.guards⟩

theorem kept_inRange : Kept InRange where
  start h := ⟨h.ip, h.calls, h.guards⟩
  stop h := ⟨h.ip, h.calls, h.guards⟩
  kill h := ⟨h.ip, h.calls, h.guards⟩
  moves h hi hmoves := h.moves hi hmoves

/-- A step of a checked program lacks neither a target within the program nor a label. -/
theorem step_ne_failed_of_check (hcheck : m.program.check = .ok ()) {σ : Type} {n : Nat}
    [ClientModel σ]
    (crew : Crew n) (every : Nat) (alarm : Alarm) (fuel : Nat) (w : World σ n) {f : Fault}
    (hcontrol : f.IsControl) (hne : f ≠ .noCall) :
    (m.step crew every alarm fuel w).1 ≠ .failed f := by
  intro hfailed
  have hstep : m.step crew every alarm fuel w =
      (.failed f, (m.step crew every alarm fuel w).2.1, (m.step crew every alarm fuel w).2.2) := by
    rw [← hfailed]
  obtain ⟨-, -, -, i, hi, hstrays⟩ := step_failed hstep
  exact hne (strays_of_check hcheck hi (hstrays hcontrol)).1

/-- Whatever is done with a machine, its place, the places it returns to and the ends of its loops
stay within the program. A jump goes to the exact sum of its place and its offset, also on machine
words, exactly if that is within the program. If the program has been checked, no step lacks a
target. -/
theorem attained_inRange (h : Attained m) :
    m.InRange ∧
      (∀ (p : Program) (place target : Nat) (offset : Int64),
        (p.jumpTarget? place offset = some target ↔
          (target : Int) = place + offset.toInt ∧ target ≤ p.length) ∧
        (p.jumpTarget? place offset = none ↔
          (place : Int) + offset.toInt < 0 ∨ (p.length : Int) < place + offset.toInt)) ∧
      (∀ (p : Program) (place : UInt64) (offset : Int64), p.length < 2 ^ 64 →
        p.wordTarget? place offset = p.jumpTarget? place.toNat offset) ∧
      (m.program.check = .ok () →
        ∀ {σ : Type} {n : Nat} [ClientModel σ] (crew : Crew n) (every : Nat)
        (alarm : Alarm) (fuel : Nat) (w : World σ n),
        (∀ place offset length,
          (m.step crew every alarm fuel w).1 ≠ .failed (.jumpOutOfRange place offset length)) ∧
        ∀ name, (m.step crew every alarm fuel w).1 ≠ .failed (.labelNotFound name)) := by
  obtain ⟨p, hreachable⟩ := h.exists_reachable
  refine ⟨kept_inRange.reachable (fun m => inRange_load m p) hreachable, ?_, ?_, ?_⟩
  · intro p place target offset
    exact ⟨Program.jumpTarget?_eq_some_iff, Program.jumpTarget?_eq_none_iff⟩
  · intro p place offset hlength
    exact Program.wordTarget?_eq hlength place offset
  · intro hcheck σ n _ crew every alarm fuel w
    refine ⟨fun place offset length => ?_, fun name => ?_⟩
    · exact step_ne_failed_of_check hcheck crew every alarm fuel w trivial (by simp)
    · exact step_ne_failed_of_check hcheck crew every alarm fuel w trivial (by simp)

/-- A block in which all clients use a potion and are asked whether they fight. If so, it enters a
loop and calls itself from within it, without end. -/
def deepening : Program :=
  ⟨[.label "a", .act .all .usePotion, .jumpIfNot allFight 3,
    .enterUntil allFight 2, .call "a", .nop]⟩

/-- The machine after two calls, each from within a loop, and after a program that left the machine
in a loop of its own. The time for the run was over while clients used potions for the third
time. -/
def deepened : RunResult × World Rehearsal 2 × Machine :=
  let m := (idle.load failingDetour).run pair 100 none 30 twoClients
  ((m.2.2.kill).load deepening).run pair 100 (some 600) 60 m.2.1
where
  /-- A program that is not sound: its jump leaves the program. -/
  failingDetour : Program :=
    ⟨[.enterUntil allFight 2, .act .all .usePotion, .jump 9223372036854775807]⟩

theorem attained_deepened : Attained deepened.2.2 :=
  .run _ _ _ _ _ (.load _ (.kill (.run _ _ _ _ _ (.load _ .idle))))

/-- The machine is in range after a detour through an unsound program, and its steps
have targets. -/
theorem deepened_inRange :
    deepened.2.2.program.check = .ok () ∧ deepened.2.2.calls = [5, 5] ∧
      deepened.2.2.guards.map (·.exit) = [5, 5] ∧ deepened.2.1.now = 600 ∧
      deepened.2.2.InRange ∧ ∀ (fuel : Nat) (name : String),
        (deepened.2.2.start.step pair 100 ⟨none, none⟩ fuel deepened.2.1).1 ≠
          .failed (.labelNotFound name) :=
  ⟨rfl, rfl, rfl, rfl, (attained_inRange attained_deepened).1,
    fun fuel name => ((attained_inRange attained_deepened.start).2.2.2 rfl pair 100
      ⟨none, none⟩ fuel
      deepened.2.1).2 name⟩

end Machine

end BotScript
