import BotScript.Proofs.Program.Acceptance
import BotScript.Proofs.Program.Sites

/-!
# Blocks in the code of a script

Each block definition of a script has a stretch of the code, from its label to its return. Once in
there, control stays until it comes to the return, as no jump of the body leads past it. Where a
script has no loops, all its jumps lead forward. So such code can be run twice only by calling it,
and a script in which no call stands in the very block that it calls cannot call what has called it.

## Main definitions

* `Extent`, `Script.blocks`: where the code of each block definition of a script stands.
* `Script.HasLoop`: there is a loop in a script.
* `Script.callee?`, `Script.CallsItself`: the label that a call resolves to, and a script with a
  call in the body of the block it resolves to.
* `Program.Straight`: all jumps lead forward, and all calls to blocks that end before them.

## Main results

* `Lowers.extent`: the code of a block definition stands where the script says.
* `Extent.Holds.confined`: no jump leads out of a block, past its return.
* `Lowers.onward`: all jumps lead forward in the code of a script without loops.
* `Lowers.callee?_eq`: a call resolves to the label it goes to.
* `Script.straight`: the program of a script without loops and recursion is straight.
-/

namespace BotScript

/-! ### Blocks, loops and calls of a script -/

/-- Where the code of a block definition stands: the places of its label and of its return. -/
structure Extent where
  entry : Nat
  exit : Nat
  deriving DecidableEq

mutual

/-- Where the code of the block definitions in a statement stands, if that of the
statement is at a given place. -/
def Statement.blocks (base : Nat) : Statement → List Extent
  | .list body | .loop body => blocksAll base body
  | .block _ body => ⟨base + 1, base + 2 + sizeAll body⟩ :: blocksAll (base + 2) body
  | .branch _ yes no => blocksAll (base + 1) no ++ blocksAll (base + 1 + sizeAll no + 1) yes
  | .whileLoop _ body | .untilLoop _ body => blocksAll (base + 1) body
  | .command _ | .call _ | .assign .. | .decrement _ => []

/-- Where the code of the block definitions in some statements stands. -/
def Statement.blocksAll (base : Nat) : List Statement → List Extent
  | [] => []
  | s :: rest => s.blocks base ++ blocksAll (base + s.size) rest

end

mutual

/-- Whether there is a loop in a statement, at any depth. -/
def Statement.hasLoop : Statement → Bool
  | .whileLoop .. | .untilLoop .. | .loop _ => true
  | .list body | .block _ body => hasLoopAll body
  | .branch _ yes no => hasLoopAll yes || hasLoopAll no
  | .command _ | .call _ | .assign .. | .decrement _ => false

/-- Whether there is a loop in some statements, at any depth. -/
def Statement.hasLoopAll : List Statement → Bool
  | [] => false
  | s :: rest => s.hasLoop || hasLoopAll rest

end

open Statement

namespace Script

/-- Where the code of the block definitions of a script stands. -/
def blocks (s : Script) : List Extent := blocksAll 0 s

/-- Somewhere in a script there is a loop. -/
def HasLoop (s : Script) : Prop := hasLoopAll s = true

instance (s : Script) : Decidable s.HasLoop := inferInstanceAs (Decidable (hasLoopAll s = true))

/-- The place of the label that the call at a place resolves to: the nearest one of its
name above. -/
def callee? (s : Script) (place : Nat) : Option Nat :=
  match s.outline[place]? with
  | some (.call name) => Program.lastPlace? (· == .label name) (s.outline.take place)
  | _ => none

/-- Some call stands in the body of the block definition that it resolves to. -/
def CallsItself (s : Script) : Prop :=
  ∃ b ∈ s.blocks, ∃ place < b.exit, b.entry < place ∧ s.callee? place = some b.entry

instance (s : Script) : Decidable s.CallsItself :=
  inferInstanceAs (Decidable (∃ b ∈ s.blocks, ∃ place < b.exit, _ ∧ _))

end Script

/-! ### The code of blocks -/

/-- Some instructions stand at a place of the code and behind it. -/
abbrev Stands (code : List Instruction) : Nat → List Instruction → Prop :=
  Along fun place i => code[place]? = some i

theorem stands_self (code : List Instruction) : Stands code 0 code := by
  refine along_iff_getElem?.mpr fun k i hi => ?_
  rwa [Nat.zero_add]

variable {code c : List Instruction} {s : Script} {base : Nat}

/-- The code of a block definition stands there: its label, its body and its return. -/
def Extent.Holds (code : List Instruction) (b : Extent) : Prop :=
  ∃ name body c, Lowers body c ∧ b.exit = b.entry + 1 + c.length ∧
    Stands code b.entry (.label name :: (c ++ [.ret]))

/-- The code of each block definition stands where the script says. -/
theorem Lowers.extent (h : Lowers s c) (hc : Stands code base c) :
    ∀ b ∈ blocksAll base s, b.Holds code := by
  induction h generalizing base with
  | nil => exact nofun
  | list hbody _ ihbody ihrest =>
    simp only [along_append, hbody.length_eq] at hc
    simp only [blocksAll, blocks, size, List.forall_mem_append]
    exact ⟨ihbody hc.1, ihrest hc.2⟩
  | command hcode _ ihrest =>
    simp only [along_append, Command.length_of_code hcode] at hc
    exact ihrest hc.2
  | @block name body rest c cs skip hbody _ _ ihbody ihrest =>
    simp only [along_append, along_cons, along_nil, List.length_cons, List.length_append,
      List.length_nil, hbody.length_eq] at hc
    simp only [blocksAll, blocks, size, List.forall_mem_append, List.forall_mem_cons]
    obtain ⟨⟨-, hlabel, hin, hret, -⟩, hrest⟩ := hc
    -- The jump over the block stands before its label, and the place it leads to behind its return.
    refine ⟨⟨⟨name, body, c, hbody, ?_, ?_⟩, ihbody hin⟩, ihrest hrest⟩
    · rw [hbody.length_eq]
    · simp only [along_append, along_cons, along_nil, hbody.length_eq]
      exact ⟨hlabel, hin, hret, trivial⟩
  | @branch test yes no rest cy cn cs toYes toEnd hno hyes _ _ _ ihno ihyes ihrest =>
    simp only [along_append, along_cons, along_nil, List.length_cons, List.length_append,
      List.length_nil, hno.length_eq, hyes.length_eq] at hc
    simp only [blocksAll, blocks, size, List.forall_mem_append]
    -- The code of the other side comes first.
    obtain ⟨⟨-, hinNo, -, hinYes, -⟩, hrest⟩ := hc
    have hplace : base + (sizeAll no + sizeAll yes + 3) =
        base + (sizeAll no + (sizeAll yes + (0 + 1) + 1) + 1) := by omega
    rw [hplace]
    exact ⟨⟨ihno hinNo, ihyes hinYes⟩, ihrest hrest⟩
  | whileLoop hbody _ _ _ ihbody ihrest | untilLoop hbody _ _ _ ihbody ihrest =>
    simp only [along_append, along_cons, along_nil, List.length_cons, List.length_append,
      List.length_nil, hbody.length_eq] at hc
    simp only [blocksAll, blocks, size, List.forall_mem_append]
    exact ⟨ihbody hc.1.2.1, ihrest hc.2⟩
  | loop hbody _ _ ihbody ihrest =>
    simp only [along_append, along_cons, along_nil, List.length_cons, List.length_append,
      List.length_nil, hbody.length_eq] at hc
    simp only [blocksAll, blocks, size, List.forall_mem_append]
    exact ⟨ihbody hc.1.1, ihrest hc.2⟩
  | call _ ihrest | assign _ ihrest | decrement _ ihrest =>
    simp only [along_append, List.length_cons, List.length_nil] at hc
    exact ihrest hc.2

/-- A label at a place is that of one of some block definitions. -/
def Instruction.Heads (blocks : List Extent) (place : Nat) (i : Instruction) : Prop :=
  ∀ name, i = .label name → ∃ b ∈ blocks, b.entry = place

/-- An instruction of another kind is no label. -/
theorem heads_of_kind {blocks : List Extent} {place : Nat} {i : Instruction}
    (h : (i.kind == "label") = false) :
    i.Heads blocks place := by
  rintro name rfl
  cases h

theorem Along.heads_mono {blocks blocks' : List Extent}
    (h : Along (Instruction.Heads blocks) base c) (hsub : blocks ⊆ blocks') :
    Along (Instruction.Heads blocks') base c := by
  rw [along_iff_getElem?] at h ⊢
  intro k i hi name hname
  obtain ⟨b, hb, hentry⟩ := h k i hi name hname
  exact ⟨b, hsub hb, hentry⟩

/-- The instructions of a command are no labels. -/
theorem Command.ne_label_of_mem {cmd : Command} {c : List Instruction} (hcode : cmd.code = .ok c)
    {name : String} : .label name ∉ c := by
  intro hmem
  -- No form of a command has a label in its outline.
  have hmark : Mark.label name ∈ cmd.outline := by
    rw [← Command.map_mark hcode]
    exact List.mem_map_of_mem hmem
  unfold Command.outline at hmark
  split at hmark <;> simp at hmark

/-- Each label of the code of a script is that of a block definition. -/
theorem Lowers.heads (h : Lowers s c) (base : Nat) :
    Along (Instruction.Heads (blocksAll base s)) base c := by
  induction h generalizing base with
  | nil => trivial
  | list hbody _ ihbody ihrest =>
    rw [along_append, hbody.length_eq]
    exact ⟨(ihbody base).heads_mono (List.subset_append_left ..),
      (ihrest _).heads_mono (List.subset_append_right ..)⟩
  | command hcode _ ihrest =>
    rw [along_append, Command.length_of_code hcode]
    refine ⟨along_iff_getElem?.mpr fun k i hi name hname => ?_, ihrest _⟩
    exact (Command.ne_label_of_mem hcode (hname ▸ List.mem_of_getElem? hi)).elim
  | @block name body rest c cs skip hbody _ _ ihbody ihrest =>
    simp only [along_append, along_cons, along_nil, and_true, List.length_cons, List.length_append,
      List.length_nil, hbody.length_eq]
    refine ⟨⟨heads_of_kind rfl, ?_, ?_, heads_of_kind rfl, heads_of_kind rfl⟩,
      (ihrest _).heads_mono (List.subset_append_right ..)⟩
    · exact fun _ _ => ⟨_, List.mem_cons_self, rfl⟩
    · refine (ihbody _).heads_mono fun b hb => ?_
      exact List.mem_append_left _ (List.mem_cons_of_mem _ hb)
  | @branch test yes no rest cy cn cs toYes toEnd hno hyes _ _ _ ihno ihyes ihrest =>
    simp only [along_append, along_cons, along_nil, and_true, List.length_cons, List.length_append,
      List.length_nil, hno.length_eq, hyes.length_eq]
    have hplace : base + (sizeAll no + (sizeAll yes + (0 + 1) + 1) + 1) =
        base + (sizeAll no + sizeAll yes + 3) := by omega
    rw [hplace]
    refine ⟨⟨heads_of_kind rfl, ?_, heads_of_kind rfl, ?_, heads_of_kind rfl⟩,
      (ihrest _).heads_mono (List.subset_append_right ..)⟩
    · refine (ihno _).heads_mono fun b hb => ?_
      exact List.mem_append_left _ (List.mem_append_left _ hb)
    · refine (ihyes _).heads_mono fun b hb => ?_
      exact List.mem_append_left _ (List.mem_append_right _ hb)
  | whileLoop hbody _ _ _ ihbody ihrest | untilLoop hbody _ _ _ ihbody ihrest =>
    simp only [along_append, along_cons, along_nil, and_true, List.length_cons, List.length_append,
      List.length_nil, hbody.length_eq]
    exact ⟨⟨heads_of_kind rfl, (ihbody _).heads_mono (List.subset_append_left ..),
      heads_of_kind rfl, heads_of_kind rfl⟩, (ihrest _).heads_mono (List.subset_append_right ..)⟩
  | loop hbody _ _ ihbody ihrest =>
    simp only [along_append, along_cons, along_nil, and_true, List.length_cons, List.length_append,
      List.length_nil, hbody.length_eq]
    exact ⟨⟨(ihbody _).heads_mono (List.subset_append_left ..), heads_of_kind rfl⟩,
      (ihrest _).heads_mono (List.subset_append_right ..)⟩
  | call _ ihrest => exact ⟨heads_of_kind rfl, heads_of_kind rfl, ihrest _⟩
  | assign _ ihrest | decrement _ ihrest => exact ⟨heads_of_kind rfl, ihrest _⟩

namespace Extent

variable {b : Extent} {place : Nat} {i : Instruction}

theorem Holds.entry_lt_exit (h : b.Holds code) : b.entry < b.exit := by
  obtain ⟨name, body, c, -, hexit, -⟩ := h
  omega

/-- A block ends with a return. -/
theorem Holds.ret (h : b.Holds code) : code[b.exit]? = some .ret := by
  obtain ⟨name, body, c, -, hexit, hstands⟩ := h
  simp only [along_append, along_cons, along_nil] at hstands
  rw [hexit]
  exact hstands.2.2.1

/-- No jump leads out of a block, past its return. -/
theorem Holds.confined (h : b.Holds code) (hi : code[place]? = some i) (hentry : b.entry ≤ place)
    (hexit : place < b.exit) {offset : Int64} (hoffset : i.offset? = some offset) :
    place + offset.toInt ≤ b.exit := by
  obtain ⟨name, body, inner, hbody, hlast, hstands⟩ := h
  simp only [along_append, along_cons, along_nil] at hstands
  obtain ⟨hlabel, hin, -⟩ := hstands
  rcases Nat.eq_or_lt_of_le hentry with rfl | hafter
  · -- The label does not jump.
    rw [hi] at hlabel
    cases hlabel
    cases hoffset
  · -- A jump of the body leads at most to the place behind the body, where the return stands.
    obtain ⟨k, rfl⟩ := Nat.exists_eq_add_of_le hafter
    have hk : k < inner.length := by omega
    have hplace := along_iff_getElem?.mp hin k inner[k] (List.getElem?_eq_getElem hk)
    have hsame : i = inner[k] := by
      rw [← Option.some_inj, ← hi, ← hplace]
    have hjump := along_iff_getElem?.mp (hbody.jumps_inside (b.entry + 1)) k inner[k]
      (List.getElem?_eq_getElem hk) offset (hsame ▸ hoffset)
    rw [hlast]
    exact_mod_cast hjump.2

end Extent

/-! ### Jumps of scripts without loops -/

/-- An instruction that does not jump back, and enters no loop. -/
def Instruction.Onward (i : Instruction) : Prop :=
  (∀ test offset, i ≠ .enterUntil test offset) ∧ ∀ offset, i.offset? = some offset →
    0 < offset.toInt

theorem Instruction.onward_of_offset?_eq_none {i : Instruction} (h : i.offset? = none) :
    i.Onward := by
  constructor
  · rintro test offset rfl
    cases h
  · intro offset hoffset
    rw [h] at hoffset
    cases hoffset

/-- All jumps lead forward in the code of a script without loops. -/
theorem Lowers.onward (h : Lowers s c) (hloop : hasLoopAll s = false) : ∀ i ∈ c, i.Onward := by
  have hplain : ∀ {i : Instruction}, i.offset? = none → i.Onward :=
    Instruction.onward_of_offset?_eq_none
  induction h with
  | nil => exact nofun
  | list _ _ ihbody ihrest =>
    simp only [hasLoopAll, hasLoop, Bool.or_eq_false_iff] at hloop
    rw [List.forall_mem_append]
    exact ⟨ihbody hloop.1, ihrest hloop.2⟩
  | command hcode _ ihrest =>
    rw [List.forall_mem_append]
    exact ⟨fun i hi => hplain (Command.offset?_of_mem hcode hi), ihrest hloop⟩
  | block _ hskip _ ihbody ihrest =>
    simp only [hasLoopAll, hasLoop, Bool.or_eq_false_iff] at hloop
    simp only [List.forall_mem_append, List.forall_mem_cons]
    refine ⟨⟨⟨nofun, ?_⟩, hplain rfl, ihbody hloop.1, hplain rfl, hplain rfl, nofun⟩,
      ihrest hloop.2⟩
    rintro _ ⟨⟩
    omega
  | branch _ _ htoYes htoEnd _ ihno ihyes ihrest =>
    simp only [hasLoopAll, hasLoop, Bool.or_eq_false_iff] at hloop
    simp only [List.forall_mem_append, List.forall_mem_cons]
    refine ⟨⟨⟨nofun, ?_⟩, ihno hloop.1.2, ⟨nofun, ?_⟩, ihyes hloop.1.1, hplain rfl, nofun⟩,
      ihrest hloop.2⟩
    · rintro _ ⟨⟩
      omega
    · rintro _ ⟨⟩
      omega
  | whileLoop | untilLoop | loop => cases hloop
  | call _ ihrest =>
    simp only [List.forall_mem_append, List.forall_mem_cons]
    exact ⟨⟨hplain rfl, hplain rfl, nofun⟩, ihrest hloop⟩
  | assign _ ihrest | decrement _ ihrest =>
    rw [List.forall_mem_append, List.forall_mem_singleton]
    exact ⟨hplain rfl, ihrest hloop⟩

/-! ### Where calls go -/

theorem Program.lastPlace?_map {α β : Type} (f : α → β) (test : β → Bool) (xs : List α) :
    lastPlace? test (xs.map f) = lastPlace? (fun a => test (f a)) xs := by
  induction xs with
  | nil => rfl
  | cons x xs ih => rw [List.map_cons, lastPlace?, lastPlace?, ih]

/-- A call resolves to the label it goes to. -/
theorem Lowers.callee?_eq (h : Lowers s code) {place : Nat} {name : String}
    (hcall : code[place]? = some (.call name)) :
    s.callee? place = Program.labelBefore? ⟨code⟩ place name := by
  have houtline : s.outline = code.map Instruction.mark := h.map_mark.symm
  have htest : (fun i : Instruction => i.mark == .label name) = Program.isLabel name := by
    funext i
    rw [Bool.eq_iff_iff, beq_iff_eq]
    cases i <;> simp [Program.isLabel, Instruction.mark]
  rw [Script.callee?, houtline, List.getElem?_map, hcall, ← List.map_take]
  exact (Program.lastPlace?_map Instruction.mark _ _).trans
    (congrArg (Program.lastPlace? · _) htest)

theorem Program.labelBefore?_lt {p : Program} {place target : Nat} {name : String}
    (h : p.labelBefore? place name = some target) : target < place := by
  obtain ⟨i, hi, -⟩ := lastPlace?_eq_some h
  rw [List.getElem?_take] at hi
  split at hi
  · assumption
  · cases hi

/-- All jumps of a program lead forward, and those out of its blocks only up to their returns; all
calls lead to blocks that end before them. -/
structure Program.Straight (blocks : List Extent) (p : Program) : Prop where
  holds : ∀ b ∈ blocks, b.Holds p.code
  onward : ∀ i ∈ p.code, i.Onward
  calls : ∀ place name target, p.code[place]? = some (.call name) →
    p.labelBefore? place name = some target → ∃ b ∈ blocks, b.entry = target ∧ b.exit < place

/-- The program of a script without loops, in which no call stands in the block it
resolves to, is straight. -/
theorem Script.straight {p : Program} (hcompile : s.compile = .ok p) (hloop : ¬ s.HasLoop)
    (hself : ¬ s.CallsItself) : p.Straight s.blocks := by
  obtain ⟨hlowers, -⟩ := compile_ok hcompile
  have hholds : ∀ b ∈ s.blocks, b.Holds p.code := hlowers.extent (stands_self p.code)
  refine ⟨hholds, hlowers.onward (Bool.not_eq_true _ ▸ hloop),
    fun place name target hcall htarget => ?_⟩
  have hlabel := Program.getElem?_of_labelBefore? htarget
  -- The label that the call goes to is that of a block.
  obtain ⟨b, hb, hentry⟩ := along_iff_getElem?.mp (hlowers.heads 0) target _ hlabel name rfl
  rw [Nat.zero_add] at hentry
  refine ⟨b, hb, hentry, Nat.lt_of_not_le fun hle => ?_⟩
  -- The call is not the return of the block, so it would stand in its body.
  have hne : place ≠ b.exit := by
    rintro rfl
    cases hcall.symm.trans (hholds b hb).ret
  refine hself ⟨b, hb, place, Nat.lt_of_le_of_ne hle hne, ?_, ?_⟩
  · rw [hentry]
    exact Program.labelBefore?_lt htarget
  · rw [hentry, hlowers.callee?_eq hcall]
    exact htarget

end BotScript
