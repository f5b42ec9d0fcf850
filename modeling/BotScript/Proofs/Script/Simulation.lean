import BotScript.Proofs.Script.Frames

/-!
# Compiled programs do what their scripts say

A machine that comes to the code of some statements tracks their execution to behind the code,
whatever calls and loops it is in. Statements are taken one kind after the other; calls are by
induction on the fuel, since the body of a block stands elsewhere in the code.

## Main definitions

* `Located`: some instructions stand at a place of a program.
* `Emitted`: the blocks that are known at a place of the code.
* `Simulates`: machines track an execution from one place to another.

## Main results

* `Emitted.find`: the nearest label above a place begins the nearest block.
* `Lowers.simulates`: the code of a script simulates its execution.
* `Script.compile_preserves_execution`: running a compiled program is executing the script.
-/

namespace BotScript

open Activity Cast Statement Machine

variable {site : Nat → Site} {p : Program} {base place : Nat} {around : Region}

/-- Some instructions stand at a place of a program. -/
abbrev Located (p : Program) : Nat → List Instruction → Prop :=
  Along fun place i => p.code[place]? = some i

/-! ### Known blocks -/

/-- The blocks that are known at a place of the code: those whose labels are above it. Behind a
label stands the code of the body of its block, and then a return. -/
inductive Emitted (site : Nat → Site) (p : Program) : Nat → Definitions → Prop
  | start : Emitted site p 0 []
  | other {place : Nat} {defs : Definitions} {i : Instruction} (h : Emitted site p place defs)
      (hi : p.code[place]? = some i) (hlabel : ∀ name, Program.isLabel name i = false) :
      Emitted site p (place + 1) defs
  | label {place : Nat} {defs : Definitions} {name : String} {body : Script} {c : List Instruction}
      (h : Emitted site p place defs) (hi : p.code[place]? = some (.label name))
      (hbody : Lowers body c)
      (hcode : Located p (place + 1) c) (hret : p.code[place + 1 + c.length]? = some .ret)
      (hframed : Framed site (place + 1) .block body) :
      Emitted site p (place + 1) ((name, body) :: defs)

/-- The nearest label of a name above a place begins the nearest block of that name, which knows the
blocks above its own label and itself. -/
theorem Emitted.find {defs : Definitions} (h : Emitted site p place defs) {name : String}
    {target : Nat} (htarget : p.labelBefore? place name = some target) :
    ∃ body known c, defs.find? name = some (body, known) ∧ p.code[target]? = some (.label name) ∧
      Lowers body c ∧ Located p (target + 1) c ∧ p.code[target + 1 + c.length]? = some .ret ∧
      Framed site (target + 1) .block body ∧ Emitted site p (target + 1) known := by
  -- Upwards from the place: the first label of the name that comes is the nearest one.
  induction h with
  | start => cases htarget
  | other _ hi hlabel ih =>
    rw [Program.labelBefore?_succ hi, hlabel name] at htarget
    exact ih htarget
  | @label place defs other body c h hi hbody hcode hret hframed ih =>
    rw [Program.labelBefore?_succ hi] at htarget
    by_cases hname : other = name
    · -- A block knows itself, so that it can call itself.
      subst hname
      rw [if_pos (by simp [Program.isLabel])] at htarget
      cases htarget
      refine ⟨body, (other, body) :: defs, c, ?_, hi, hbody, hcode, hret, hframed, ?_⟩
      · simp [Definitions.find?]
      · exact .label h hi hbody hcode hret hframed
    · rw [if_neg (by simpa [Program.isLabel] using hname)] at htarget
      obtain ⟨body', known, c', hfind, hrest⟩ := ih htarget
      refine ⟨body', known, c', ?_, hrest⟩
      rw [Definitions.find?, if_neg (by simpa using hname)]
      exact hfind

/-- Instructions without labels leave the known blocks as they are. -/
theorem Emitted.others {defs : Definitions} {c : List Instruction} (h : Emitted site p place defs)
    (hcode : Located p place c) (hlabels : ∀ i ∈ c, ∀ name, Program.isLabel name i = false) :
    Emitted site p (place + c.length) defs := by
  induction c generalizing place with
  | nil => exact h
  | cons i rest ih =>
    obtain ⟨hi, hrest⟩ := hcode
    have hnext := h.other hi (hlabels i List.mem_cons_self)
    have hothers := ih hnext hrest fun j hj => hlabels j (List.mem_cons_of_mem i hj)
    rwa [List.length_cons, Nat.add_comm rest.length, ← Nat.add_assoc]

theorem Emitted.at_place {defs : Definitions} (h : Emitted site p place defs) {other : Nat}
    (hother : other = place) : Emitted site p other defs := by
  rwa [hother]

/-- A command has no labels. -/
theorem Command.isLabel_of_mem {cmd : Command} {c : List Instruction} (hcode : cmd.code = .ok c)
    {i : Instruction} (hi : i ∈ c) (name : String) : Program.isLabel name i = false := by
  unfold Command.code at hcode
  split at hcode <;> cases hcode
  · cases List.mem_singleton.mp hi
    rfl
  · cases List.mem_singleton.mp hi
    rfl
  · cases List.mem_singleton.mp hi
    rfl
  · cases List.mem_singleton.mp hi
    rfl
  · unfold Action.code at hi
    split at hi
    · simp only [List.mem_cons, List.not_mem_nil, or_false] at hi
      rcases hi with rfl | rfl <;> rfl
    · cases List.mem_singleton.mp hi
      rfl
  · cases List.mem_singleton.mp hi
    rfl

/-- Behind the code of a script, the blocks that it defines are known. -/
theorem Lowers.emitted {s : Script} {c : List Instruction} (h : Lowers s c) {defs : Definitions}
    (hcode : Located p base c) (hframed : Framed site base around s)
    (hdefs : Emitted site p base defs) :
    Emitted site p (base + c.length) (defineAll defs s) := by
  -- In each case the instructions of the statement are passed in order, with its parts
  -- between them.
  induction h generalizing base around defs with
  | nil => exact hdefs
  | list hbody _ ihbody ihrest =>
    obtain ⟨hone, hothers⟩ := hframed.cons
    have hlength := hbody.length_eq
    simp only [along_append, List.length_append, hlength] at hcode ⊢
    have hknown := ihbody hcode.1 hone hdefs
    rw [hlength] at hknown
    exact (ihrest hcode.2 hothers hknown).at_place (Nat.add_assoc ..).symm
  | @command cmd rest c cs hcmd _ ihrest =>
    obtain ⟨-, hothers⟩ := hframed.cons
    have hlength := Command.length_of_code hcmd
    have hcodeCmd := (along_append.mp hcode).1
    simp only [along_append, List.length_append, hlength] at hcode ⊢
    have hknown := hdefs.others hcodeCmd fun i hi => Command.isLabel_of_mem hcmd hi
    rw [hlength] at hknown
    exact (ihrest hcode.2 hothers hknown).at_place (Nat.add_assoc ..).symm
  | @block name body rest c cs skip hbody _ _ ihbody ihrest =>
    obtain ⟨hone, hothers⟩ := hframed.cons
    obtain ⟨-, -, hinner, -, -⟩ := hone.block
    have hlength := hbody.length_eq
    simp only [along_append, along_cons, along_nil, and_true, List.length_cons, List.length_append,
      List.length_nil, hlength] at hcode ⊢
    obtain ⟨⟨hjump, hlabel, hcodeBody, hret, hnop⟩, hcodeRest⟩ := hcode
    have hblock : Emitted site p (base + 1 + 1) ((name, body) :: defs) := by
      refine (hdefs.other hjump fun _ => rfl).label hlabel hbody hcodeBody ?_ hinner
      rwa [hlength]
    have hknown := ihbody hcodeBody hinner hblock
    rw [hlength] at hknown
    have hbehind := (hknown.other hret fun _ => rfl).other hnop fun _ => rfl
    exact (ihrest hcodeRest hothers (hbehind.at_place (by omega))).at_place (by omega)
  | @branch test yes no rest cy cn cs toYes toEnd hno hyes _ _ _ ihno ihyes ihrest =>
    obtain ⟨hone, hothers⟩ := hframed.cons
    obtain ⟨-, hframedNo, -, hframedYes, -⟩ := hone.branch
    have hlengthNo := hno.length_eq
    have hlengthYes := hyes.length_eq
    simp only [along_append, along_cons, along_nil, and_true, List.length_cons, List.length_append,
      List.length_nil, hlengthNo, hlengthYes] at hcode ⊢
    obtain ⟨⟨htest, hcodeNo, hjump, hcodeYes, hnop⟩, hcodeRest⟩ := hcode
    have hknownNo := ihno hcodeNo hframedNo (hdefs.other htest fun _ => rfl)
    rw [hlengthNo] at hknownNo
    have hknownYes := ihyes hcodeYes hframedYes (hknownNo.other hjump fun _ => rfl)
    rw [hlengthYes] at hknownYes
    have hbehind := hknownYes.other hnop fun _ => rfl
    exact (ihrest hcodeRest hothers (hbehind.at_place (by omega))).at_place (by omega)
  | @whileLoop test body rest c cs toEnd back hbody _ _ _ ihbody ihrest =>
    obtain ⟨hone, hothers⟩ := hframed.cons
    obtain ⟨-, hinner, -, -⟩ := hone.whileLoop
    have hlength := hbody.length_eq
    simp only [along_append, along_cons, along_nil, and_true, List.length_cons, List.length_append,
      List.length_nil, hlength] at hcode ⊢
    obtain ⟨⟨htest, hcodeBody, hback, hnop⟩, hcodeRest⟩ := hcode
    have hknown := ihbody hcodeBody hinner (hdefs.other htest fun _ => rfl)
    rw [hlength] at hknown
    have hbehind := (hknown.other hback fun _ => rfl).other hnop fun _ => rfl
    exact (ihrest hcodeRest hothers (hbehind.at_place (by omega))).at_place (by omega)
  | @untilLoop test body rest c cs toEnd back hbody _ _ _ ihbody ihrest =>
    obtain ⟨hone, hothers⟩ := hframed.cons
    obtain ⟨-, hinner, -, -⟩ := hone.untilLoop
    have hlength := hbody.length_eq
    simp only [along_append, along_cons, along_nil, and_true, List.length_cons, List.length_append,
      List.length_nil, hlength] at hcode ⊢
    obtain ⟨⟨henter, hcodeBody, hback, hnop⟩, hcodeRest⟩ := hcode
    have hknown := ihbody hcodeBody hinner (hdefs.other henter fun _ => rfl)
    rw [hlength] at hknown
    have hbehind := (hknown.other hback fun _ => rfl).other hnop fun _ => rfl
    exact (ihrest hcodeRest hothers (hbehind.at_place (by omega))).at_place (by omega)
  | @loop body rest c cs back hbody _ _ ihbody ihrest =>
    obtain ⟨hone, hothers⟩ := hframed.cons
    obtain ⟨hinner, -⟩ := hone.loop
    have hlength := hbody.length_eq
    simp only [along_append, along_cons, along_nil, and_true, List.length_cons, List.length_append,
      List.length_nil, hlength] at hcode ⊢
    obtain ⟨⟨hcodeBody, hback⟩, hcodeRest⟩ := hcode
    have hknown := ihbody hcodeBody hinner hdefs
    rw [hlength] at hknown
    have hbehind := hknown.other hback fun _ => rfl
    exact (ihrest hcodeRest hothers (hbehind.at_place (by omega))).at_place (by omega)
  | call _ ihrest =>
    obtain ⟨-, hothers⟩ := hframed.cons
    obtain ⟨hcall, hnop, hcodeRest⟩ := hcode
    have hbehind := (hdefs.other hcall fun _ => rfl).other hnop fun _ => rfl
    exact (ihrest hcodeRest hothers hbehind).at_place (by grind)
  | assign _ ihrest =>
    obtain ⟨-, hothers⟩ := hframed.cons
    obtain ⟨hassign, hcodeRest⟩ := hcode
    have hbehind := hdefs.other hassign fun _ => rfl
    exact (ihrest hcodeRest hothers hbehind).at_place (by grind)
  | decrement _ ihrest =>
    obtain ⟨-, hothers⟩ := hframed.cons
    obtain ⟨hdecrement, hcodeRest⟩ := hcode
    have hbehind := hdefs.other hdecrement fun _ => rfl
    exact (ihrest hcodeRest hothers hbehind).at_place (by grind)

/-! ### Statements -/

section Simulates

variable {σ : Type} {n : Nat} [ClientModel σ] {crew : Crew n} {every : Nat} {expire : Option Nat}
  {count : Nat} {x y : Exec σ n Unit} {next mid behind : Nat} {test : Expr}
  {toYes toEnd back : Int64}

/-- Machines that come to a place track an execution from there to another place, whatever calls and
loops they are in. -/
def Simulates (crew : Crew n) (every : Nat) (expire : Option Nat) (count : Nat) (site : Nat → Site)
    (p : Program) (x : Exec σ n Unit) (base next : Nat) : Prop :=
  ∀ (m : Machine) (w : World σ n) (vars : Variables), Frame site p m →
    Tracks crew every expire 0 count (fun _ => m.arrive next) w (m.arrive base vars) (x w vars)

theorem simulates_pure (base : Nat) :
    Simulates crew every expire count site p (pure () : Exec σ n Unit) base base :=
  fun _ _ _ _ => tracks_pure rfl

/-- One statement after the other. -/
theorem Simulates.seq (hx : Simulates crew every expire count site p x base mid)
    (hy : Simulates crew every expire count site p y mid next) :
    Simulates crew every expire count site p (do x; y) base next :=
  fun m w vars hm => (hx m w vars hm).bind_left fun _ w' vars' => hy m w' vars' hm

/-- The code of a block is jumped over. -/
theorem simulates_block (hjump : p.code[base]? = some (.jump toEnd))
    (hsite : (site base).closing = false) (htoEnd : (base : Int) + toEnd.toInt = behind)
    (hnop : p.code[behind]? = some .nop) :
    Simulates crew every expire count site p (pure () : Exec σ n Unit) base (behind + 1) := by
  intro m w vars hm
  refine Leads.mono ?_ (Nat.zero_le (1 + 1))
  exact (hm.leads_jump hjump hsite htoEnd).trans (hm.leads_nop hnop)

/-- A branch; `mid` is the place of the jump between its two sides. -/
theorem simulates_branch (hjumpIf : p.code[base]? = some (.jumpIf test toYes))
    (htoYes : (base : Int) + toYes.toInt = (mid + 1 : Nat))
    (hno : Simulates crew every expire count site p x (base + 1) mid)
    (hjump : p.code[mid]? = some (.jump toEnd)) (hsite : (site mid).closing = false)
    (htoEnd : (mid : Int) + toEnd.toInt = behind)
    (hyes : Simulates crew every expire count site p y (mid + 1) behind)
    (hnop : p.code[behind]? = some .nop) :
    Simulates crew every expire count site p
      (do if ← test.holds crew expire count then y else x) base (behind + 1) := by
  intro m w vars hm
  refine Tracks.weaken ((hm.tracks_jumpIf hjumpIf htoYes).bind_left fun yes w' vars' => ?_)
  cases yes with
  | true => exact (hyes m w' vars' hm).andLeads fun _ _ _ => hm.leads_nop hnop
  | false =>
    exact (hno m w' vars' hm).andLeads fun _ _ _ =>
      (hm.leads_jump hjump hsite htoEnd).trans (hm.leads_nop hnop)

/-- A `while` loop; `mid` is the place of the test behind its body. That test is the one before the
next round, so each round begins at one of the two tests. -/
theorem simulates_while (hjumpIfNot : p.code[base]? = some (.jumpIfNot test toEnd))
    (htoEnd : (base : Int) + toEnd.toInt = (mid + 1 : Nat))
    (hbody : Simulates crew every expire count site p x (base + 1) mid)
    (hjumpIf : p.code[mid]? = some (.jumpIf test back))
    (hback : (mid : Int) + back.toInt = (base + 1 : Nat)) (hnop : p.code[mid + 1]? = some .nop) :
    Simulates crew every expire count site p (Exec.repeatWhile (do
      if ← test.holds crew expire count then
        x
        return true
      else return false) count) base (mid + 1 + 1) := by
  intro m w vars hm
  have hround : ∀ (w : World σ n) vars m₁, Tracks crew every expire 1 count
      (fun yes => m.arrive (if yes then base + 1 else mid + 1)) w m₁
      (test.holds crew expire count w vars) →
      Tracks crew every expire 1 count (fun more =>
        if more then m.arrive mid else m.arrive (mid + 1)) w m₁
        ((do
          if ← test.holds crew expire count then
            x
            return true
          else return false : Exec σ n Bool) w vars) := by
    intro w vars m₁ htest
    refine htest.bind_left fun yes w' vars' => ?_
    cases yes with
    | true => exact (hbody m w' vars' hm).bind_left fun _ _ _ => tracks_pure rfl
    | false => exact tracks_pure rfl
  have hrounds := tracks_repeatWhile
    (fun w vars => hround w vars _ (hm.tracks_jumpIf hjumpIf hback)) (Nat.le_refl count)
    (hround w vars _ (hm.tracks_jumpIfNot hjumpIfNot htoEnd))
  exact hrounds.andLeads fun _ _ _ => hm.leads_nop hnop

/-- An `until` loop; `mid` is the place of its jump back. -/
theorem simulates_until (henter : p.code[base]? = some (.enterUntil test toEnd))
    (htoEnd : (base : Int) + toEnd.toInt = (mid + 1 : Nat)) (hmarked : Marked site ⟨test, mid + 1⟩)
    (hbody : Simulates crew every expire count site p x (base + 1) mid)
    (hjump : p.code[mid]? = some (.jump back)) (hback : (mid : Int) + back.toInt = (base + 1 : Nat))
    (hnop : p.code[mid + 1]? = some .nop) :
    Simulates crew every expire count site p (Exec.repeatWhile (do
      x
      return !(← test.holds crew expire count)) count) base (mid + 1 + 1) := by
  intro m w vars hm
  have hround : ∀ (w : World σ n) vars, Tracks crew every expire 1 count
      (fun more => if more then (m.inLoop ⟨test, mid + 1⟩).arrive (base + 1)
        else m.arrive (mid + 1)) w
      ((m.inLoop ⟨test, mid + 1⟩).arrive (base + 1) vars)
      ((do
        x
        return !(← test.holds crew expire count) : Exec σ n Bool) w vars) := by
    intro w vars
    have hinner := hbody (m.inLoop ⟨test, mid + 1⟩) w vars (hm.inLoop hmarked)
    refine hinner.bind_right fun _ w' vars' => ?_
    refine (hm.tracks_jumpBack hmarked hjump rfl hback).bind_left fun leaves _ _ => tracks_pure ?_
    cases leaves <;> rfl
  have hrounds := tracks_repeatWhile hround (Nat.le_refl count) (hround w vars)
  have hloop := ((hm.leads_enterUntil henter htoEnd).tracks hrounds).mono (Nat.zero_le _)
    (Nat.le_add_left count 1)
  exact hloop.andLeads fun _ _ _ => hm.leads_nop hnop

/-- A loop without an end; `mid` is the place of its jump back. -/
theorem simulates_loop (hbody : Simulates crew every expire count site p x base mid)
    (hjump : p.code[mid]? = some (.jump back)) (hsite : (site mid).closing = false)
    (hback : (mid : Int) + back.toInt = base) :
    Simulates crew every expire count site p (Exec.repeatWhile (do
      x
      return true) count) base (mid + 1) := by
  intro m w vars hm
  have hround : ∀ (w : World σ n) vars, Tracks crew every expire 1 count
      (fun more => if more then m.arrive base else m.arrive (mid + 1)) w (m.arrive base vars)
      ((do
        x
        return true : Exec σ n Bool) w vars) := by
    intro w vars
    refine (hbody m w vars hm).bind_right fun _ w' vars' => ?_
    exact hm.leads_jump hjump hsite hback
  exact tracks_repeatWhile hround (Nat.le_refl count) (hround w vars)

/-- A call: the body of the block stands behind the label that is called. It has less fuel, which
the steps to get there make up for. -/
theorem simulates_call {name : String} {label ret : Nat} (hcall : p.code[base]? = some (.call name))
    (hnop : p.code[base + 1]? = some .nop) (htarget : p.labelBefore? base name = some label)
    (hlabel : p.code[label]? = some (.label name))
    (hbody : Simulates crew every expire count site p x (label + 1) ret)
    (hret : p.code[ret]? = some .ret) :
    Simulates crew every expire (count + 1) site p x base (base + 1 + 1) := by
  intro m w vars hm
  have hcallee := hm.within (base + 1)
  have henter : Leads crew every expire (1 + 1) w (m.arrive base vars) w
      ((m.within (base + 1)).arrive (label + 1) vars) :=
    (hm.leads_call hcall htarget).trans (hcallee.leads_label hlabel)
  have hinner := (hbody (m.within (base + 1)) w vars hcallee).andLeads fun _ _ _ =>
    (hm.leads_ret hret).trans (hm.leads_nop hnop)
  exact (henter.tracks hinner).mono (Nat.zero_le _) (by omega)

theorem Simulates.at_place (hx : Simulates crew every expire count site p x base mid)
    (hnext : next = mid) :
    Simulates crew every expire count site p x base next := by
  rwa [hnext]

/-- An action of the clients. -/
theorem simulates_act {who : Selector} {a : Action} (hact : p.code[base]? = some (.act who a)) :
    Simulates crew every expire count site p
      (Exec.perform crew expire count fun vars =>
        a.perform crew every vars (who.pick n) : Exec σ n Unit)
      base (base + 1) :=
  fun _ _ _ hm => (hm.tracks_do hact rfl).weaken

/-- The code of a command simulates its execution. -/
theorem Command.simulates {cmd : Command} {c : List Instruction} (hcmd : cmd.code = .ok c)
    (hcode : Located p base c) :
    Simulates crew every expire count site p (cmd.exec crew every expire count : Exec σ n Unit) base
      (base + c.length) := by
  obtain ⟨who, kind⟩ := cmd
  cases kind with
  | kill =>
    cases hcmd
    exact fun m w vars hm => hm.concludes_kill hcode.1
  | sleep duration =>
    cases hcmd
    intro m w vars hm
    have hplan : (m.put base vars).plan crew every (.sleep duration) =
        (duration.rest crew vars).bind fun _ => lift (.ok ⟨m.put (base + 1) vars, []⟩) := rfl
    exact (hm.tracks_do hcode.1 hplan).weaken
  | log output =>
    cases output with
    | literal tokens =>
      cases hcmd
      exact fun m w vars hm => Leads.mono (hm.leads_writing hcode.1 rfl rfl) (Nat.zero_le 1)
    | window path =>
      cases hcmd
      intro m w vars hm
      have hplan : (m.put base vars).plan crew every (.logWindow who path) =
          (windowLines crew path (who.pick n)).bind fun lines =>
            lift (.ok ⟨m.put (base + 1) vars, lines⟩) := plan_logWindow crew every _ who path
      exact (hm.tracks_next (y := fun _ => windowLines crew path (who.pick n)) hcode.1 hplan
        fun _ _ => rfl).weaken
  | act a =>
    cases hcmd
    cases a with
    | waitFor wait =>
      obtain ⟨kind, completion⟩ := wait
      cases completion with
      | true => exact (simulates_act hcode.1).seq (simulates_act hcode.2.1)
      | false => exact simulates_act hcode.1
    | _ => exact simulates_act hcode.1
  | loadPlaystyle text =>
    cases hcmd
    intro m w vars hm
    have hplan : (m.put base vars).plan crew every (.loadPlaystyle who text) =
        (allDo (who.pick n) (.loadPlaystyle text)).bind fun _ =>
          lift (.ok ⟨m.put (base + 1) vars, []⟩) := rfl
    exact (hm.tracks_do (y :=
      fun _ => allDo (who.pick n) (.loadPlaystyle text)) hcode.1 hplan).weaken
  | expr q => cases hcmd

theorem simulates_assign {name : String} {value : Expr}
    (hassign : p.code[base]? = some (.assign name value)) :
    Simulates crew every expire count site p
      (do Exec.store name (← Exec.perform crew expire count fun vars =>
        value.eval crew vars) : Exec σ n Unit)
      base (base + 1) := by
  intro m w vars hm
  have hplan : (m.put base vars).plan crew every (.assign name value) =
      (value.eval crew vars).bind fun v => lift
      (.ok ⟨m.put (base + 1) (vars.set name v), []⟩) := rfl
  exact (hm.tracks_next (y := fun vars => value.eval crew vars) hassign hplan fun _ _ => rfl).weaken

theorem simulates_decrement {name : String} (hdecrement : p.code[base]? = some (.decrement name)) :
    Simulates crew every expire count site p
      (do Exec.store name (← Exec.perform crew expire count fun vars =>
        lift (vars.decremented name)) :
        Exec σ n Unit) base (base + 1) := by
  intro m w vars hm
  have hplan : (m.put base vars).plan crew every (.decrement name) =
      (lift (vars.decremented name)).bind fun v =>
        lift (.ok ⟨m.put (base + 1) (vars.set name v), []⟩) := by
    rw [plan_decrement]
    unfold lessOne Variables.decremented put
    cases vars.get? name with
    | none => rfl
    | some v => cases v <;> rfl
  exact (hm.tracks_next (y := fun vars => lift (vars.decremented name)) hdecrement hplan
    fun _ _ => rfl).weaken

end Simulates

/-! ### Scripts -/

theorem FramedOne.single {s : Statement} (h : FramedOne site base around s) :
    Framed site base around [s] := by
  constructor
  · simpa [sitesAll] using h.1
  · exact h.2

section Scripts

variable {σ : Type} {n : Nat} [ClientModel σ] {crew : Crew n} {every : Nat} {expire : Option Nat}
  {count : Nat}

/-- A statement in front of others: the others know the blocks that it defines. -/
theorem simulates_cons {callee : Definitions → Script → Exec σ n Unit} {s : Statement}
    {rest : Script} {c cs : List Instruction} {defs : Definitions} (hs : Lowers [s] c)
    (hcode : Located p base (c ++ cs)) (hframed : Framed site base around (s :: rest))
    (hdefs : Emitted site p base defs)
    (hone : Located p base c → FramedOne site base around s →
      Simulates crew every expire count site p (s.exec crew every expire count callee defs) base
        (base + c.length))
    (hothers : ∀ {base : Nat} {around : Region} {defs : Definitions}, Located p base cs →
      Framed site base around rest → Emitted site p base defs →
      Simulates crew every expire count site p
        (execAll crew every expire count callee defs rest) base (base + cs.length)) :
    Simulates crew every expire count site p
      (execAll crew every expire count callee defs (s :: rest)) base
      (base + (c ++ cs).length) := by
  obtain ⟨hcodeOne, hcodeRest⟩ := along_append.mp hcode
  obtain ⟨hframedOne, hframedRest⟩ := hframed.cons
  have hlength : c.length = s.size := hs.length_eq
  rw [← hlength] at hframedRest
  have hbehind := hs.emitted hcodeOne hframedOne.single hdefs
  rw [List.length_append, ← Nat.add_assoc]
  exact (hone hcodeOne hframedOne).seq (hothers hcodeRest hframedRest hbehind)

/-- The code of a script simulates its execution. -/
theorem Lowers.simulates (hcheck : p.check = .ok ()) (count : Nat) {s : Script}
    {c : List Instruction} (h : Lowers s c) {defs : Definitions} (hcode : Located p base c)
    (hframed : Framed site base around s) (hdefs : Emitted site p base defs) :
    Simulates crew every expire count site p
      (Script.exec crew every expire count defs s : Exec σ n Unit)
      base (base + c.length) := by
  -- Outside by the fuel, for the bodies of blocks that are called; inside by the code.
  induction count generalizing s c base around defs with
  | zero =>
    intro m w vars _
    exact ⟨0, 0, w, m.arrive base vars, m.arrive base vars, .refl _ _, Nat.le_refl 0, rfl⟩
  | succ fuel ihfuel =>
    induction h generalizing base around defs with
    | nil => exact simulates_pure base
    | list hbody _ ihbody ihrest =>
      refine simulates_cons (by simpa using Lowers.list hbody .nil) hcode hframed hdefs ?_ ihrest
      intro hcode hone
      exact ihbody hcode hone hdefs
    | command hcmd _ ihrest =>
      refine simulates_cons (by simpa using Lowers.command hcmd .nil) hcode hframed hdefs ?_ ihrest
      intro hcode hone
      exact Command.simulates hcmd hcode
    | @block name body rest c cs skip hbody hskip _ _ ihrest =>
      refine simulates_cons (by simpa using Lowers.block hbody hskip .nil) hcode
        hframed hdefs ?_ ihrest
      intro hcode hone
      simp only [along_append, along_cons, along_nil, and_true] at hcode
      obtain ⟨hjump, -, -, -, hnop⟩ := hcode
      obtain ⟨hsite, -⟩ := hone.block
      exact (simulates_block hjump (by rw [hsite]; rfl) (by omega) hnop).at_place (by grind)
    | @branch test yes no rest cy cn cs toYes toEnd hno hyes htoYes htoEnd _ ihno ihyes ihrest =>
      refine simulates_cons (by simpa using Lowers.branch hno hyes htoYes htoEnd .nil) hcode
        hframed hdefs ?_ ihrest
      intro hcode hone
      obtain ⟨-, hframedNo, hsite, hframedYes, -⟩ := hone.branch
      rw [← hno.length_eq] at hsite hframedYes
      simp only [along_append, along_cons, along_nil, and_true] at hcode
      obtain ⟨hjumpIf, hcodeNo, hjump, hcodeYes, hnop⟩ := hcode
      have hdefsNo := hdefs.other hjumpIf fun _ => rfl
      have hdefsYes := (hno.emitted hcodeNo hframedNo hdefsNo).other hjump fun _ => rfl
      exact (simulates_branch hjumpIf (by omega) (ihno hcodeNo hframedNo hdefsNo) hjump
        (by rw [hsite]; rfl) (by omega) (ihyes hcodeYes hframedYes hdefsYes) hnop).at_place
          (by grind)
    | @whileLoop test body rest c cs toEnd back hbody htoEnd hback _ ihbody ihrest =>
      refine simulates_cons (by simpa using Lowers.whileLoop hbody htoEnd hback .nil) hcode
        hframed hdefs ?_ ihrest
      intro hcode hone
      obtain ⟨-, hinner, -⟩ := hone.whileLoop
      simp only [along_append, along_cons, along_nil, and_true] at hcode
      obtain ⟨hjumpIfNot, hcodeBody, hjumpIf, hnop⟩ := hcode
      have hround := ihbody hcodeBody hinner (hdefs.other hjumpIfNot fun _ => rfl)
      exact (simulates_while hjumpIfNot (by omega) hround hjumpIf (by omega) hnop).at_place
        (by grind)
    | @untilLoop test body rest c cs toEnd back hbody htoEnd hback _ ihbody ihrest =>
      refine simulates_cons (by simpa using Lowers.untilLoop hbody htoEnd hback .nil) hcode
        hframed hdefs ?_ ihrest
      intro hcode hone
      obtain ⟨-, hinner, hsite, -⟩ := hone.untilLoop
      rw [← hbody.length_eq] at hsite
      have hmarked : Marked site ⟨test, base + 1 + c.length + 1⟩ :=
        ⟨base + 1 + c.length, rfl, by rw [hsite]⟩
      simp only [along_append, along_cons, along_nil, and_true] at hcode
      obtain ⟨henter, hcodeBody, hjump, hnop⟩ := hcode
      have hround := ihbody hcodeBody hinner (hdefs.other henter fun _ => rfl)
      exact (simulates_until henter (by omega) hmarked hround hjump (by omega) hnop).at_place
        (by grind)
    | @loop body rest c cs back hbody hback _ ihbody ihrest =>
      refine simulates_cons (by simpa using Lowers.loop hbody hback .nil) hcode
        hframed hdefs ?_ ihrest
      intro hcode hone
      obtain ⟨hinner, hsite⟩ := hone.loop
      rw [← hbody.length_eq] at hsite
      simp only [along_append, along_cons, along_nil, and_true] at hcode
      obtain ⟨hcodeBody, hjump⟩ := hcode
      exact (simulates_loop (ihbody hcodeBody hinner hdefs) hjump (by rw [hsite]; rfl)
        (by omega)).at_place (by grind)
    | @call name rest cs _ ihrest =>
      refine simulates_cons (by simpa using Lowers.call .nil) hcode hframed hdefs ?_ ihrest
      intro hcode _
      obtain ⟨hcall, hnop, -⟩ := hcode
      obtain ⟨label, htarget⟩ := (Program.check_ok hcheck hcall).2 name rfl
      obtain ⟨body, known, c, hfind, hlabel, hbody, hcodeBody, hret, hinner, hknown⟩ :=
        hdefs.find htarget
      rw [Statement.exec, hfind]
      exact simulates_call hcall hnop htarget hlabel (ihfuel hbody hcodeBody hinner hknown) hret
    | assign _ ihrest =>
      refine simulates_cons (by simpa using Lowers.assign .nil) hcode hframed hdefs ?_ ihrest
      intro hcode _
      exact simulates_assign hcode.1
    | decrement _ ihrest =>
      refine simulates_cons (by simpa using Lowers.decrement .nil) hcode hframed hdefs ?_ ihrest
      intro hcode _
      exact simulates_decrement hcode.1

/-! ### Whole scripts -/

variable {s : Script} {fuel : Nat} {w w' : World σ n} {vars' : Variables} {e : Upshot}

/-- A machine that has a compiled program from the beginning tracks the execution of the script. -/
theorem Script.tracks_exec (h : s.compile = .ok p) (m : Machine) (crew : Crew n) (every : Nat)
    (expire : Option Nat) (fuel : Nat) (w : World σ n) :
    Tracks crew every expire 0 fuel (fun _ => (m.load p).start.arrive p.length) w (m.load p).start
      (s.exec crew every expire fuel [] w []) := by
  obtain ⟨hlowers, hcheck⟩ := Script.compile_ok h
  have hframe : Frame s.siteAt p (m.load p).start := by
    refine ⟨rfl, rfl, ?_, hcheck⟩
    intro g hg
    cases hg
  have hcode : Located p 0 p.code := along_iff_getElem?.mpr fun place i hi => by rwa [Nat.zero_add]
  have hsimulates : Simulates crew every expire fuel s.siteAt p
      (s.exec crew every expire fuel [] : Exec σ n Unit) 0 (0 + p.length) :=
    hlowers.simulates hcheck fuel hcode s.framed .start
  rw [Nat.zero_add] at hsimulates
  -- Without any instruction, the machine needs a step to notice that it is at the end.
  have hstart : Leads crew every expire 0 w (m.load p).start w ((m.load p).start.arrive 0 []) := by
    unfold arrive settle
    split
    · rename_i hempty
      have hnone : (m.load p).start.instruction? = none := List.getElem?_eq_none hempty
      have hstep : (m.load p).start.step crew every ⟨none, expire⟩ 0 w =
          (.done 0, w, (m.load p).start.stop) := step_of_end rfl hnone
      exact ⟨1, Nat.zero_le 1, .next rfl hstep rfl (.refl _ _), rfl⟩
    · exact Leads.refl w _
  have htracks := hstart.tracks (hsimulates _ w [] hframe)
  exact htracks.mono (Nat.le_refl _) (Nat.le_add_left fuel 0)

/-- A machine behind its program has come to the end of its run. -/
theorem Machine.concludes_arrive (w : World σ n) {m : Machine} (hm : m.program = p)
    (vars : Variables) :
    Concludes crew every expire .finished w (m.arrive p.length vars) w vars := by
  have hstopped : m.arrive p.length vars = (m.put p.length vars).stop := by
    unfold arrive settle
    rw [if_pos]
    rw [← hm]
    exact Nat.le_refl _
  rw [hstopped]
  refine ⟨1, .done, (m.put p.length vars).stop, runOn_of_not_running rfl, by simp, ?_, rfl,
    (Bool.or_false m.killed).symm⟩
  change (if p.length < m.program.length then Upshot.killed else .finished) = .finished
  rw [hm]
  exact if_neg (Nat.lt_irrefl _)

/-- Where the execution of a script ends, so does the run of its program. -/
theorem Script.concludes_of_execute (h : s.compile = .ok p) (m : Machine)
    (hexecute : s.execute crew every expire fuel w = (e, w', vars')) (he : e ≠ .outOfFuel) :
    Concludes crew every expire e w (m.load p).start w' vars' := by
  have htracks := Script.tracks_exec h m crew every expire fuel w
  unfold Script.execute at hexecute
  cases hcourse : s.exec crew every expire fuel [] w [] with
  | goesOn r w₁ vars₁ =>
    rw [hcourse] at htracks hexecute
    cases hexecute
    exact Leads.concludes htracks (concludes_arrive w' rfl vars')
  | ends e₁ w₁ vars₁ =>
    rw [hcourse] at htracks hexecute
    cases hexecute
    cases e with
    | outOfFuel => exact absurd rfl he
    | _ => exact htracks

/-- Where the execution of a script lacks fuel, the run of its program is not over. -/
theorem Script.pending_of_execute (h : s.compile = .ok p) (m : Machine)
    (hexecute : s.execute crew every expire fuel w = (.outOfFuel, w', vars')) :
    Pending crew every expire fuel w (m.load p).start w' := by
  have htracks := Script.tracks_exec h m crew every expire fuel w
  unfold Script.execute at hexecute
  cases hcourse : s.exec crew every expire fuel [] w [] with
  | goesOn r w₁ vars₁ =>
    rw [hcourse] at hexecute
    cases hexecute
  | ends e₁ w₁ vars₁ =>
    rw [hcourse] at htracks hexecute
    cases hexecute
    exact htracks

/-- Where the run of a compiled program ends, the execution of its script ends with the
same fuel. -/
theorem Script.execute_of_runOn (h : s.compile = .ok p) {m m' : Machine} {r : RunResult}
    (hrun : (m.load p).start.runOn crew every expire fuel w = (r, w', m')) (hr : r ≠ .outOfFuel) :
    s.execute crew every expire fuel w = (m'.upshot r, w', m'.vars) := by
  obtain ⟨e, w₁, vars₁, hexecute⟩ : ∃ e w₁ vars₁, s.execute crew every expire fuel w =
      (e, w₁, vars₁) :=
    ⟨_, _, _, rfl⟩
  by_cases he : e = .outOfFuel
  · -- A run with no more fuel than the execution would not have come to its end either.
    subst he
    have hpending := Script.pending_of_execute h m hexecute
    have hout := (hpending.runOn_outOfFuel (Nat.le_refl fuel)).1
    rw [hrun] at hout
    exact absurd hout hr
  · obtain ⟨fuel₁, r₁, m₁, hrun₁, hr₁, rfl, rfl, -⟩ := Script.concludes_of_execute h m hexecute he
    have hsame := runOn_unique (by rwa [hrun₁]) (by rwa [hrun])
    rw [hrun₁, hrun] at hsame
    cases hsame
    exact hexecute

/-- What an execution has written down so far is written down by some run. -/
theorem Script.exists_run_of_execute (h : s.compile = .ok p) (m : Machine) (crew : Crew n)
    (every : Nat) (expire : Option Nat) (fuel : Nat) (w : World σ n) :
    ∃ more, (s.execute crew every expire fuel w).2.1.journal <:+
      ((m.load p).start.runOn crew every expire more w).2.1.journal := by
  obtain ⟨e, w₁, vars₁, hexecute⟩ : ∃ e w₁ vars₁, s.execute crew every expire fuel w =
      (e, w₁, vars₁) :=
    ⟨_, _, _, rfl⟩
  rw [hexecute]
  by_cases he : e = .outOfFuel
  · subst he
    exact (Script.pending_of_execute h m hexecute).exists_runOn
  · obtain ⟨more, r, m', hrun, -⟩ := Script.concludes_of_execute h m hexecute he
    exact ⟨more, by rw [hrun]⟩

/-- What a run has written down so far is written down by the execution with as much fuel. -/
theorem Script.run_journal_suffix (h : s.compile = .ok p) (m : Machine) (crew : Crew n)
    (every : Nat) (expire : Option Nat) (fuel : Nat) (w : World σ n) :
    ((m.load p).start.runOn crew every expire fuel w).2.1.journal <:+
      (s.execute crew every expire fuel w).2.1.journal := by
  obtain ⟨e, w₁, vars₁, hexecute⟩ : ∃ e w₁ vars₁, s.execute crew every expire fuel w =
      (e, w₁, vars₁) :=
    ⟨_, _, _, rfl⟩
  rw [hexecute]
  by_cases he : e = .outOfFuel
  · subst he
    exact ((Script.pending_of_execute h m hexecute).runOn_outOfFuel (Nat.le_refl fuel)).2
  · obtain ⟨enough, r, m', hrun, hr, -⟩ := Script.concludes_of_execute h m hexecute he
    have hmore := runOn_eq_of_le (Nat.le_max_right fuel enough) (by rwa [hrun])
    have hgrows := runOn_journal_suffix crew every expire (Nat.le_max_left fuel enough) w
      (m.load p).start
    rwa [hmore, hrun] at hgrows

/-- Running a compiled program is executing its script: one comes to an end exactly if the other
does, in the same way, with the same world, the same journal of calls and lines and the same
variables; and as long as they do not, each writes down what the other does. -/
theorem Script.compile_preserves_execution (h : s.compile = .ok p) (m : Machine) (crew : Crew n)
    (every : Nat) (expire : Option Nat) (w : World σ n) :
    (∀ e w' vars', e ≠ .outOfFuel →
      ((∃ fuel, s.execute crew every expire fuel w = (e, w', vars')) ↔
        ∃ fuel r m', (m.load p).run crew every expire fuel w = (r, w', m') ∧ m'.upshot r = e ∧
          m'.vars = vars' ∧ m'.killed = (m.killed || e == .killed))) ∧
    (∀ fuel, ∃ more, (s.execute crew every expire fuel w).2.1.journal <:+
      ((m.load p).run crew every expire more w).2.1.journal) ∧
    ∀ fuel, ∃ more, ((m.load p).run crew every expire fuel w).2.1.journal <:+
      (s.execute crew every expire more w).2.1.journal := by
  refine ⟨fun e w' vars' he => ⟨?_, ?_⟩, ?_, ?_⟩
  · rintro ⟨fuel, hexecute⟩
    obtain ⟨enough, r, m', hrun, -, hupshot, hvars, hkilled⟩ :=
      Script.concludes_of_execute h m hexecute he
    exact ⟨enough, r, m', hrun, hupshot, hvars, hkilled⟩
  · rintro ⟨fuel, r, m', hrun, rfl, rfl, -⟩
    have hr : r ≠ .outOfFuel := by
      rintro rfl
      exact he rfl
    exact ⟨fuel, Script.execute_of_runOn h hrun hr⟩
  · exact fun fuel => Script.exists_run_of_execute h m crew every expire fuel w
  · exact fun fuel => ⟨fuel, Script.run_journal_suffix h m crew every expire fuel w⟩

end Scripts

/-- A statement that writes a word. -/
def say (word : String) : Statement := .command ⟨.all, .log (.literal [.word word])⟩

/-- A script with a block in which all clients use a potion, a loop that calls it, a branch, and an
end by killing. -/
def tour : Script :=
  [.block "f" [.command ⟨.all, .act .usePotion⟩], .untilLoop allFight [.call "f"],
    .branch (.unary .not allFight) [say "yes"] [say "no"], .command ⟨.all, .kill⟩]

/-- The code of the tour. -/
def tourProgram : Program :=
  ⟨[.jump 4, .label "f", .act .all .usePotion, .ret, .nop, .enterUntil allFight 4, .call "f", .nop,
    .jump (-2), .nop, .jumpIf (.unary .not allFight) 3, .logLiteral [.word "no"], .jump 2,
    .logLiteral [.word "yes"], .nop, .kill]⟩

/-- The world after the tour. -/
def tourEnd : World Rehearsal 2 := (tour.execute pair 100 none 20 fighters).2.1

/-- The tour takes the clients through the loop twice, writes a word and is killed, in its execution
and so in the run of its program. -/
theorem tour_runs_as_executed :
    tour.compile = .ok tourProgram ∧
      tour.execute pair 100 none 20 fighters = (.killed, tourEnd, []) ∧
      tourEnd.history.map (Event.render pair) =
        ["0 p1 usepotion >", "0 p2 usepotion >", "10 p1 usepotion =", "30 p2 usepotion =",
          "30 p1 battle >",
          "40 p1 battle = false", "40 p1 usepotion >", "40 p2 usepotion >", "50 p1 usepotion =",
          "70 p2 usepotion =", "70 p1 battle >", "80 p1 battle = true", "80 p2 battle >",
          "110 p2 battle = true", "110 p1 battle >", "120 p1 battle = true", "120 p2 battle >",
          "150 p2 battle = true", "no"] ∧
      ∃ fuel r m', (idle.load tourProgram).run pair 100 none fuel fighters = (r, tourEnd, m') ∧
        m'.upshot r = .killed ∧ m'.vars = [] ∧ m'.killed = true := by
  have hcompile : tour.compile = .ok tourProgram := rfl
  have hkilled : (tour.execute pair 100 none 20 fighters).1 = .killed := by decide +kernel
  have hvars : (tour.execute pair 100 none 20 fighters).2.2.length = 0 := by decide +kernel
  have hexecute : tour.execute pair 100 none 20 fighters = (.killed, tourEnd, []) := by
    rw [← hkilled, ← List.length_eq_zero_iff.mp hvars, tourEnd]
  have hboth := Script.compile_preserves_execution hcompile idle pair 100 none fighters
  exact ⟨hcompile, hexecute, by decide +kernel, (hboth.1 .killed _ [] (by simp)).mp ⟨20, hexecute⟩⟩

end BotScript
