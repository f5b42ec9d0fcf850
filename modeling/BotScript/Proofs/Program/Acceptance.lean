import BotScript.Proofs.Machine.Range

/-!
# Which scripts compile

A script is turned down for one of two reasons. It has a question in the place of a command, for
which there is no code; or it calls a block that is not defined above the call. Both are told from
the tree of statements alone: the outline of a script has a mark for each instruction that it would
be compiled to, in the order of the code, which tells labels and calls from all other instructions.

Jumps never are a reason. Where each piece of code is short enough for an offset, all jumps stay
within the piece that they belong to.

## Main definitions

* `Statement.commands`: the commands in a statement.
* `Statement.outline`: what the instructions of a statement are to its blocks.
* `Script.HasQuestion`: a question stands in the place of a command.
* `Script.Unresolved`, `Script.FirstUnresolved`: a call has no block above it.

## Main results

* `Lowers.map_mark`: the outline of a script is that of its code.
* `Statement.answers_codeAll`: there is code for a script, unless a question stands in
  the place of a command.
* `Lowers.jumps_inside`: all jumps of compiled code stay within it.
* `Lowers.check_cases`: the check finds the first call without a block above it.
* `Script.compile_decides`: exactly which scripts compile, and what is wrong with the others.
-/

namespace BotScript

open Statement

/-! ### Outlines -/

/-- What an instruction is to the blocks of a script. -/
inductive Mark where
  | label (name : String)
  | call (name : String)
  | other
  deriving DecidableEq

/-- The mark of an instruction. -/
def Instruction.mark : Instruction → Mark
  | .label name => .label name
  | .call name => .call name
  | _ => .other

/-- Whether a command is a question, for which there is no code. -/
def Command.isQuestion (c : Command) : Bool :=
  match c.kind with
  | .expr _ => true
  | _ => false

/-- The marks of the instructions of a command. A question has none, and a wait with
completion is two waits. -/
def Command.outline (c : Command) : List Mark :=
  match c.kind with
  | .expr _ => []
  | .act (.waitFor ⟨_, true⟩) => [.other, .other]
  | _ => [.other]

mutual

/-- The commands in a statement, at any depth. -/
def Statement.commands : Statement → List Command
  | .command c => [c]
  | .list body | .block _ body | .whileLoop _ body | .untilLoop _ body | .loop body =>
    commandsAll body
  | .branch _ yes no => commandsAll yes ++ commandsAll no
  | .call _ | .assign .. | .decrement _ => []

/-- The commands in some statements, at any depth. -/
def Statement.commandsAll : List Statement → List Command
  | [] => []
  | s :: rest => s.commands ++ commandsAll rest

end

mutual

/-- The marks of the instructions of a statement, in the order of the code: a label comes before the
body of its block, and the negative side of a branch before the positive one. -/
def Statement.outline : Statement → List Mark
  | .list body => outlineAll body
  | .command c => c.outline
  | .block name body => .other :: .label name :: (outlineAll body ++ [.other, .other])
  | .branch _ yes no => .other :: (outlineAll no ++ .other :: (outlineAll yes ++ [.other]))
  | .whileLoop _ body | .untilLoop _ body => .other :: (outlineAll body ++ [.other, .other])
  | .loop body => outlineAll body ++ [.other]
  | .call name => [.call name, .other]
  | .assign .. | .decrement _ => [.other]

/-- The marks of the instructions of some statements. -/
def Statement.outlineAll : List Statement → List Mark
  | [] => []
  | s :: rest => s.outline ++ outlineAll rest

end

namespace Script

/-- The marks of the instructions of a script, in the order of the code. -/
def outline (s : Script) : List Mark := outlineAll s

/-- Somewhere in a script a question stands in the place of a command. -/
def HasQuestion (s : Script) : Prop := ∃ c ∈ commandsAll s, c.isQuestion = true

instance (s : Script) : Decidable s.HasQuestion :=
  inferInstanceAs (Decidable (∃ c ∈ commandsAll s, c.isQuestion = true))

/-- The instruction at a place is a call, and no label of its name stands above it. -/
def Unresolved (s : Script) (place : Nat) (name : String) : Prop :=
  s.outline[place]? = some (.call name) ∧ ∀ above < place, s.outline[above]? ≠ some (.label name)

/-- Every call has a label of its name above it. -/
def Resolved (s : Script) : Prop := ∀ place name, ¬ s.Unresolved place name

/-- The first call, in the order of the code, that has no label of its name above it. -/
def FirstUnresolved (s : Script) (place : Nat) (name : String) : Prop :=
  s.Unresolved place name ∧ ∀ above < place, ∀ other, ¬ s.Unresolved above other

end Script

/-! ### Code and outline -/

/-- The instructions of a command do not jump. -/
theorem Command.offset?_of_mem {cmd : Command} {c : List Instruction} (hcode : cmd.code = .ok c)
    {i : Instruction} (hi : i ∈ c) : i.offset? = none := by
  unfold Command.code at hcode
  split at hcode <;> cases hcode
  · cases List.mem_singleton.mp hi
    rfl
  · cases List.mem_singleton.mp hi
    rfl
  · cases List.mem_singleton.mp hi
    rfl
  · cases List.mem_singleton.mp hi
    rfl
  · unfold Action.code at hi
    split at hi
    · simp only [List.mem_cons, List.not_mem_nil, or_false] at hi
      rcases hi with rfl | rfl <;> rfl
    · cases List.mem_singleton.mp hi
      rfl
  · cases List.mem_singleton.mp hi
    rfl

theorem Command.map_mark {cmd : Command} {c : List Instruction} (hcode : cmd.code = .ok c) :
    c.map Instruction.mark = cmd.outline := by
  unfold Command.code at hcode
  unfold Command.outline
  split at hcode <;> cases hcode <;> rename_i hkind <;> rw [hkind]
  · rfl
  · rfl
  · rfl
  · rfl
  · unfold Action.code
    split <;> simp_all [Instruction.mark]
  · rfl

/-- The outline of a script is that of its code. -/
theorem Lowers.map_mark {s : Script} {c : List Instruction} (h : Lowers s c) :
    c.map Instruction.mark = outlineAll s := by
  induction h with
  | nil => rfl
  | command hcode _ ih => simp [outlineAll, outline, Command.map_mark hcode, ih]
  | _ => simp_all [outlineAll, outline, Instruction.mark]

theorem Lowers.length_outline {s : Script} {c : List Instruction} (h : Lowers s c) :
    c.length = (outlineAll s).length := by
  rw [← h.map_mark, List.length_map]

/-! ### Code for a script -/

section Answers

variable {α β : Type} {P Q : Prop}

/-- There is a result, unless it is refused for a question in the place of a command. -/
def Answers (refused : Prop) (x : Except CompileError α) : Prop :=
  (refused ∧ x = .error (.unsupported "expr")) ∨ (¬ refused ∧ ∃ a, x = .ok a)

theorem Answers.of_iff {x : Except CompileError α} (h : Answers P x) (hiff : P ↔ Q) :
    Answers Q x := by
  rwa [Answers, ← hiff]

theorem answers_ok (a : α) : Answers False (.ok a : Except CompileError α) :=
  .inr ⟨id, a, rfl⟩

/-- Of one result after the other, the first refusal is the one that counts. -/
theorem Answers.bind {x : Except CompileError α} {f : α → Except CompileError β} (hx : Answers P x)
    (hf : ∀ a, x = .ok a → Answers Q (f a)) : Answers (P ∨ Q) (x >>= f) := by
  rcases hx with ⟨hP, rfl⟩ | ⟨hP, a, rfl⟩
  · exact .inl ⟨.inl hP, rfl⟩
  · rcases hf a rfl with ⟨hQ, hfa⟩ | ⟨hQ, b, hfa⟩
    · exact .inl ⟨.inr hQ, hfa⟩
    · exact .inr ⟨not_or.mpr ⟨hP, hQ⟩, b, hfa⟩

/-- A result that is only used for something that cannot be refused. -/
theorem Answers.map {x : Except CompileError α} {f : α → Except CompileError β} (hx : Answers P x)
    (hf : ∀ a, x = .ok a → Answers False (f a)) : Answers P (x >>= f) :=
  (hx.bind hf).of_iff (iff_of_eq (or_false P))

end Answers

/-- A length below the bound has an offset. -/
theorem answers_offsetOf {k : Nat} (hk : k < 2 ^ 63) : Answers False (offsetOf k) := by
  have hlt : k < UInt64.size / 2 := hk
  rw [offsetOf, if_pos hlt]
  exact answers_ok _

theorem Command.answers_code (c : Command) : Answers (c.isQuestion = true) c.code := by
  obtain ⟨who, kind⟩ := c
  cases kind with
  | expr p => exact .inl ⟨rfl, rfl⟩
  | log output => cases output <;> exact .inr ⟨nofun, _, rfl⟩
  | _ => exact .inr ⟨nofun, _, rfl⟩

mutual

/-- There is code for a statement that is not too long, unless a question stands in the place of a
command. -/
theorem Statement.answers_code : (s : Statement) → s.outline.length < 2 ^ 63 →
    Answers (∃ c ∈ s.commands, c.isQuestion = true) s.code
  | .list body, h => Statement.answers_codeAll body h
  | .command c, _ => c.answers_code.of_iff (by simp [commands])
  | .block name body, h => by
    have hbound : (outlineAll body).length + 4 < 2 ^ 63 := by simpa [outline] using h
    refine (Statement.answers_codeAll body (by omega)).map fun c hc => ?_
    have hlength := (Statement.lowers_all body hc).length_outline
    exact (answers_offsetOf (by omega)).map fun _ _ => answers_ok _
  | .branch test yes no, h => by
    simp only [outline, List.length_cons, List.length_append, List.length_nil] at h
    have hno := Statement.answers_codeAll no (by omega)
    have hyes := Statement.answers_codeAll yes (by omega)
    refine Answers.of_iff (hno.bind fun cn hcn => hyes.map fun cy hcy => ?_) ?_
    · have hlengthNo := (Statement.lowers_all no hcn).length_outline
      have hlengthYes := (Statement.lowers_all yes hcy).length_outline
      exact (answers_offsetOf (by omega)).map fun _ _ =>
        (answers_offsetOf (by omega)).map fun _ _ => answers_ok _
    · simp only [commands, List.mem_append, or_and_right, exists_or]
      exact or_comm
  | .whileLoop test body, h | .untilLoop test body, h => by
    have hbound : (outlineAll body).length + 3 < 2 ^ 63 := by simpa [outline] using h
    refine (Statement.answers_codeAll body (by omega)).map fun c hc => ?_
    have hlength := (Statement.lowers_all body hc).length_outline
    exact (answers_offsetOf (by omega)).map fun _ _ =>
      (answers_offsetOf (by omega)).map fun _ _ => answers_ok _
  | .loop body, h => by
    have hbound : (outlineAll body).length + 1 < 2 ^ 63 := by simpa [outline] using h
    refine (Statement.answers_codeAll body (by omega)).map fun c hc => ?_
    have hlength := (Statement.lowers_all body hc).length_outline
    exact (answers_offsetOf (by omega)).map fun _ _ => answers_ok _
  | .call name, _ => (answers_ok _).of_iff (by simp [commands])
  | .assign name value, _ => (answers_ok _).of_iff (by simp [commands])
  | .decrement name, _ => (answers_ok _).of_iff (by simp [commands])

/-- There is code for a script that is not too long, unless a question stands in the
place of a command. -/
theorem Statement.answers_codeAll : (s : List Statement) → (outlineAll s).length < 2 ^ 63 →
    Answers (∃ c ∈ commandsAll s, c.isQuestion = true) (codeAll s)
  | [], _ => (answers_ok _).of_iff (by simp [commandsAll])
  | s :: rest, h => by
    have hbound : s.outline.length + (outlineAll rest).length < 2 ^ 63 := by
      simpa [outlineAll] using h
    have hfirst := Statement.answers_code s (by omega)
    have hothers := Statement.answers_codeAll rest (by omega)
    refine (hfirst.bind fun _ _ => hothers.map fun _ _ => answers_ok _).of_iff ?_
    simp only [commandsAll, List.mem_append, or_and_right, exists_or]

end

/-! ### Jumps -/

/-- Where an instruction may jump from a place lies between two places. -/
def Instruction.Inside (low high place : Nat) (i : Instruction) : Prop :=
  ∀ offset, i.offset? = some offset →
    (low : Int) ≤ place + offset.toInt ∧ place + offset.toInt ≤ high

theorem inside_of_offset?_eq_none {i : Instruction} (h : i.offset? = none) (low high place : Nat) :
    i.Inside low high place := by
  intro offset hoffset
  rw [h] at hoffset
  cases hoffset

theorem inside_of_offset?_eq_some {i : Instruction} {offset : Int64} (h : i.offset? = some offset)
    {low high place : Nat} (hlow : (low : Int) ≤ place + offset.toInt)
    (hhigh : place + offset.toInt ≤ high) : i.Inside low high place := by
  intro other hother
  rw [h] at hother
  cases hother
  exact ⟨hlow, hhigh⟩

/-- Jumps within a piece of the code stay within the whole of it. -/
theorem Along.inside_mono {low high low' high' place : Nat} {c : List Instruction}
    (h : Along (Instruction.Inside low high) place c) (hlow : low' ≤ low) (hhigh : high ≤ high') :
    Along (Instruction.Inside low' high') place c := by
  rw [along_iff_getElem?] at h ⊢
  intro k i hi offset hoffset
  obtain ⟨hl, hh⟩ := h k i hi offset hoffset
  omega

/-- All jumps of compiled code stay within it, or lead right behind it. -/
theorem Lowers.jumps_inside {s : Script} {c : List Instruction} (h : Lowers s c) (base : Nat) :
    Along (Instruction.Inside base (base + c.length)) base c := by
  have hplain : ∀ {i : Instruction} {low high place : Nat}, i.offset? = none →
      i.Inside low high place := fun hnone => inside_of_offset?_eq_none hnone _ _ _
  -- In each case: the jumps of the parts stay within the parts, then the own jumps one by one.
  induction h generalizing base with
  | nil => trivial
  | list _ _ ihbody ihrest =>
    rw [along_append, List.length_append]
    exact ⟨(ihbody base).inside_mono (by omega) (by omega),
      (ihrest _).inside_mono (by omega) (by omega)⟩
  | @command cmd rest c cs hcode _ ihrest =>
    rw [along_append, List.length_append]
    refine ⟨along_iff_getElem?.mpr fun k i hi => ?_, (ihrest _).inside_mono (by omega) (by omega)⟩
    exact hplain (Command.offset?_of_mem hcode (List.mem_of_getElem? hi))
  | @block name body rest c cs skip _ hskip _ ihbody ihrest =>
    simp only [along_append, along_cons, along_nil, and_true, List.length_cons, List.length_append,
      List.length_nil]
    refine ⟨⟨?_, hplain rfl, (ihbody _).inside_mono (by omega) (by omega), hplain rfl, hplain rfl⟩,
      (ihrest _).inside_mono (by omega) (by omega)⟩
    exact inside_of_offset?_eq_some rfl (by omega) (by omega)
  | @branch test yes no rest cy cn cs toYes toEnd _ _ htoYes htoEnd _ ihno ihyes ihrest =>
    simp only [along_append, along_cons, along_nil, and_true, List.length_cons, List.length_append,
      List.length_nil]
    refine ⟨⟨?_, (ihno _).inside_mono (by omega) (by omega), ?_,
      (ihyes _).inside_mono (by omega) (by omega), hplain rfl⟩,
      (ihrest _).inside_mono (by omega) (by omega)⟩
    · exact inside_of_offset?_eq_some rfl (by omega) (by omega)
    · exact inside_of_offset?_eq_some rfl (by omega) (by omega)
  | @whileLoop test body rest c cs toEnd back _ htoEnd hback _ ihbody ihrest
  | @untilLoop test body rest c cs toEnd back _ htoEnd hback _ ihbody ihrest =>
    simp only [along_append, along_cons, along_nil, and_true, List.length_cons, List.length_append,
      List.length_nil]
    refine ⟨⟨?_, (ihbody _).inside_mono (by omega) (by omega), ?_, hplain rfl⟩,
      (ihrest _).inside_mono (by omega) (by omega)⟩
    · exact inside_of_offset?_eq_some rfl (by omega) (by omega)
    · exact inside_of_offset?_eq_some rfl (by omega) (by omega)
  | @loop body rest c cs back _ hback _ ihbody ihrest =>
    simp only [along_append, along_cons, along_nil, and_true, List.length_cons, List.length_append,
      List.length_nil]
    refine ⟨⟨(ihbody _).inside_mono (by omega) (by omega), ?_⟩,
      (ihrest _).inside_mono (by omega) (by omega)⟩
    exact inside_of_offset?_eq_some rfl (by omega) (by omega)
  | call _ ihrest =>
    simp only [along_append, along_cons, along_nil, and_true, List.length_cons, List.length_append,
      List.length_nil]
    exact ⟨⟨hplain rfl, hplain rfl⟩, (ihrest _).inside_mono (by omega) (by omega)⟩
  | assign _ ihrest | decrement _ ihrest =>
    simp only [along_append, along_cons, along_nil, and_true, List.length_cons, List.length_append,
      List.length_nil]
    exact ⟨hplain rfl, (ihrest _).inside_mono (by omega) (by omega)⟩

/-! ### The check -/

namespace Program

variable {p : Program} {place : Nat} {name : String}

theorem lastPlace?_eq_none_iff {α : Type} {test : α → Bool} {xs : List α} :
    lastPlace? test xs = none ↔ ∀ a ∈ xs, test a = false := by
  induction xs with
  | nil => simp [lastPlace?]
  | cons x xs ih =>
    rw [lastPlace?, List.forall_mem_cons, ← ih]
    cases lastPlace? test xs with
    | some i => simp
    | none => simp

/-- A call has no target exactly if no label of its name stands above it. -/
theorem labelBefore?_eq_none_iff :
    p.labelBefore? place name = none ↔
      ∀ above < place, (p.code.map Instruction.mark)[above]? ≠ some (.label name) := by
  have hmark : ∀ i : Instruction, isLabel name i = true ↔ i.mark = .label name := by
    intro i
    cases i <;> simp [isLabel, Instruction.mark]
  rw [labelBefore?, lastPlace?_eq_none_iff]
  constructor
  · intro hnone above habove hlabel
    obtain ⟨i, hi, hlabel⟩ := Option.map_eq_some_iff.mp (List.getElem?_map ▸ hlabel)
    have htake : (p.code.take place)[above]? = some i := by rwa [List.getElem?_take_of_lt habove]
    have hfalse := hnone i (List.mem_of_getElem? htake)
    rw [(hmark i).mpr hlabel] at hfalse
    cases hfalse
  · intro hnone i hi
    obtain ⟨above, habove⟩ := List.mem_iff_getElem?.mp hi
    rw [List.getElem?_take] at habove
    split at habove
    · rename_i hlt
      rw [Bool.eq_false_iff, Ne, hmark]
      intro hlabel
      exact hnone above hlt (by rw [List.getElem?_map, habove, Option.map_some, hlabel])
    · cases habove

/-- A jump that stays in the program passes the check, and a call passes it if it has a target. -/
theorem checkAt_of_inside {i : Instruction} (hinside : i.Inside 0 p.length place) :
    (p.checkAt place i = .ok () ∧ ∀ name, i = .call name → p.labelBefore? place name ≠ none) ∨
      ∃ name, i = .call name ∧ p.labelBefore? place name = none ∧
        p.checkAt place i = .error (.unresolvedLabel place name) := by
  have hjump : ∀ offset, i.offset? = some offset → (p.jumpTarget? place offset).isNone = false := by
    intro offset hoffset
    obtain ⟨hlow, hhigh⟩ := hinside offset hoffset
    rw [Option.isNone_eq_false_iff, Option.isSome_iff_ne_none, Ne, jumpTarget?_eq_none_iff]
    omega
  cases i with
  | call name =>
    cases htarget : p.labelBefore? place name with
    | some target =>
      refine .inl ⟨?_, ?_⟩
      · simp [checkAt, Instruction.offset?, htarget, pure, Except.pure]
      · rintro other ⟨⟩
        simp [htarget]
    | none =>
      refine .inr ⟨name, rfl, htarget, ?_⟩
      simp [checkAt, Instruction.offset?, htarget, throw, throwThe, MonadExceptOf.throw]
  | jump offset | jumpIf _ offset | jumpIfNot _ offset | enterUntil _ offset =>
    refine .inl ⟨?_, ?_⟩
    · simp [checkAt, Instruction.offset?, hjump offset rfl, pure, Except.pure]
    · rintro name ⟨⟩
  | _ =>
    refine .inl ⟨rfl, ?_⟩
    rintro name ⟨⟩

/-- The check ends at the first instruction that does not pass it. -/
theorem checkFrom_cases (p : Program) (place : Nat) (code : List Instruction) :
    (p.checkFrom place code = .ok () ∧
      Along (fun place i => p.checkAt place i = .ok ()) place code) ∨
      ∃ k i e, code[k]? = some i ∧ p.checkAt (place + k) i = .error e ∧
        p.checkFrom place code = .error e ∧
        ∀ j < k, ∀ i, code[j]? = some i → p.checkAt (place + j) i = .ok () := by
  induction code generalizing place with
  | nil => exact .inl ⟨rfl, trivial⟩
  | cons i rest ih =>
    cases hat : p.checkAt place i with
    | error e => exact .inr ⟨0, i, e, rfl, hat, by rw [checkFrom, hat]; rfl, by simp⟩
    | ok u =>
      have hfrom : p.checkFrom place (i :: rest) = p.checkFrom (place + 1) rest := by
        rw [checkFrom, hat]
        rfl
      rcases ih (place + 1) with ⟨hok, halong⟩ | ⟨k, i', e, hi', he, herror, hbefore⟩
      · exact .inl ⟨hfrom.trans hok, hat, halong⟩
      · refine .inr ⟨k + 1, i', e, hi', ?_, hfrom.trans herror, ?_⟩
        · rwa [Nat.add_right_comm] at he
        · intro j hj other hother
          cases j with
          | zero =>
            cases hother
            exact hat
          | succ j =>
            have hok := hbefore j (Nat.lt_of_succ_lt_succ hj) other hother
            rwa [Nat.add_right_comm] at hok

end Program

/-- In the code of a script, the check finds the first call without a label of its name above it. -/
theorem Lowers.check_cases {s : Script} {code : List Instruction} (h : Lowers s code) :
    (s.Resolved ∧ Program.check ⟨code⟩ = .ok ()) ∨
      ∃ place name, s.FirstUnresolved place name ∧
        Program.check ⟨code⟩ = .error (.unresolvedLabel place name) := by
  have houtline : s.outline = code.map Instruction.mark := h.map_mark.symm
  have hinside : ∀ place (i : Instruction), code[place]? = some i →
      i.Inside 0 code.length place := by
    have hjumps := along_iff_getElem?.mp (h.jumps_inside 0)
    simpa using hjumps
  -- A place that passes the check is not an unresolved call.
  have hpasses : ∀ place i, code[place]? = some i → Program.checkAt ⟨code⟩ place i = .ok () →
      ∀ name, ¬ s.Unresolved place name := by
    rintro place i hi hok name ⟨hcall, habove⟩
    rw [houtline, List.getElem?_map, hi, Option.map_some, Option.some_inj] at hcall
    have hicall : i = .call name := by
      cases i with
      | call other =>
        cases hcall
        rfl
      | _ => cases hcall
    rw [houtline] at habove
    have hnone : Program.labelBefore? ⟨code⟩ place name = none :=
      Program.labelBefore?_eq_none_iff.mpr habove
    rcases Program.checkAt_of_inside (p := ⟨code⟩) (hinside place i hi) with
      ⟨-, hlabels⟩ | ⟨_, _, _, herror⟩
    · exact hlabels name hicall hnone
    · rw [hok] at herror
      cases herror
  rcases Program.checkFrom_cases ⟨code⟩ 0 code with
    ⟨hok, halong⟩ | ⟨place, i, e, hi, hat, herror, hbefore⟩
  · refine .inl ⟨fun place name hunresolved => ?_, hok⟩
    have hplace := hunresolved.1
    rw [houtline, List.getElem?_map] at hplace
    obtain ⟨i, hi, -⟩ := Option.map_eq_some_iff.mp hplace
    have hat := along_iff_getElem?.mp halong place i hi
    rw [Nat.zero_add] at hat
    exact hpasses place i hi hat name hunresolved
  · rw [Nat.zero_add] at hat
    rcases Program.checkAt_of_inside (p := ⟨code⟩) (hinside place i hi) with ⟨hok, -⟩ |
      ⟨name, rfl, hnone, hunresolved⟩
    · rw [hok] at hat
      cases hat
    · rw [hunresolved] at hat
      cases hat
      refine .inr ⟨place, name, ⟨⟨?_, ?_⟩, ?_⟩, herror⟩
      · rw [houtline, List.getElem?_map, hi]
        rfl
      · rw [houtline]
        exact Program.labelBefore?_eq_none_iff.mp hnone
      · intro above habove other hother
        have hplace := hother.1
        rw [houtline, List.getElem?_map] at hplace
        obtain ⟨i, hi, -⟩ := Option.map_eq_some_iff.mp hplace
        have hat := hbefore above habove i hi
        rw [Nat.zero_add] at hat
        exact hpasses above i hi hat other hother

theorem Script.FirstUnresolved.not_resolved {s : Script} {place : Nat} {name : String}
    (h : s.FirstUnresolved place name) : ¬ s.Resolved :=
  fun hresolved => hresolved place name h.1

namespace Script

variable {s : Script}

/-- What comes of compiling a script that is not too long, told from its outline. -/
theorem compile_cases (hsize : s.outline.length < 2 ^ 63) :
    (s.HasQuestion ∧ s.compile = .error (.unsupported "expr")) ∨
      ¬ s.HasQuestion ∧ ∃ p, codeAll s = .ok p.code ∧ p.code.map Instruction.mark = s.outline ∧
        ((s.Resolved ∧ s.compile = .ok p) ∨
          ∃ place name, s.FirstUnresolved place name ∧
            s.compile = .error (.unresolvedLabel place name)) := by
  rcases Statement.answers_codeAll s hsize with ⟨hquestion, herror⟩ | ⟨hquestion, c, hcode⟩
  · refine .inl ⟨hquestion, ?_⟩
    rw [compile, herror]
    rfl
  · have hlowers := Statement.lowers_all s hcode
    refine .inr ⟨hquestion, ⟨c⟩, hcode, hlowers.map_mark, ?_⟩
    have hcompile : s.compile = (do
        Program.check ⟨c⟩
        return ⟨c⟩) := by
      rw [compile, hcode]
      rfl
    refine hlowers.check_cases.imp (fun ⟨hresolved, hcheck⟩ => ⟨hresolved, ?_⟩)
      (fun ⟨place, name, hfirst, hcheck⟩ => ⟨place, name, hfirst, ?_⟩)
    · rw [hcompile, hcheck]
      rfl
    · rw [hcompile, hcheck]
      rfl

/-- A script that is not too long compiles exactly if no question stands in the place of a command
and every call has a block of its name above it, in the order of the code. Of the others, those with
a question are turned down for it, and those without for their first call without a block; the
outline tells where that call stands in the code. -/
theorem compile_decides (hsize : s.outline.length < 2 ^ 63) :
    ((∃ p, s.compile = .ok p) ↔ ¬ s.HasQuestion ∧ s.Resolved) ∧
      (s.HasQuestion → s.compile = .error (.unsupported "expr")) ∧
      (¬ s.HasQuestion → ∃ code, codeAll s = .ok code ∧ code.map Instruction.mark = s.outline) ∧
      (¬ s.HasQuestion → ¬ s.Resolved → ∃ place name, s.FirstUnresolved place name ∧
        s.compile = .error (.unresolvedLabel place name)) ∧
      (∀ place offset length, s.compile ≠ .error (.jumpOutOfRange place offset length)) ∧
      s.compile ≠ .error .tooLarge := by
  -- A question, no objection, or a call without a block.
  rcases compile_cases hsize with ⟨hquestion, herror⟩ |
    ⟨hquestion, p, hcode, hmarks, ⟨hresolved, hok⟩ | ⟨place, name, hfirst, herror⟩⟩
  · refine ⟨?_, fun _ => herror, fun h => (h hquestion).elim, fun h => (h hquestion).elim, ?_, ?_⟩
    · simp [herror, hquestion]
    · simp [herror]
    · simp [herror]
  · refine ⟨?_, fun h => (hquestion h).elim, fun _ => ⟨p.code, hcode, hmarks⟩,
      fun _ h => (h hresolved).elim, ?_, ?_⟩
    · simp [hok, hquestion, hresolved]
    · simp [hok]
    · simp [hok]
  · refine ⟨?_, fun h => (hquestion h).elim, fun _ => ⟨p.code, hcode, hmarks⟩,
      fun _ _ => ⟨place, name, hfirst, herror⟩, ?_, ?_⟩
    · simp [herror, hfirst.not_resolved]
    · simp [herror]
    · simp [herror]

/-- A block that is defined on the negative side of a branch, called by itself and on the positive
side; then a loop that calls a block defined below. -/
def tangled : Script :=
  [.branch (.var "x") [.call "a"] [.block "a" [.call "a"]], .loop [.call "b"], .block "b" []]

/-- Only the call of the block defined below is unresolved. -/
theorem tangled_turned_down :
    tangled.outline.length < 2 ^ 63 ∧ ¬ tangled.HasQuestion ∧
      ∃ place name, tangled.FirstUnresolved place name ∧
        tangled.compile = .error (.unresolvedLabel place name) := by
  have hsize : tangled.outline.length < 2 ^ 63 := by decide
  have hquestion : ¬ tangled.HasQuestion := by decide
  have hunresolved : tangled.Unresolved 11 "b" := ⟨by decide, by decide⟩
  obtain ⟨-, -, -, hfirst, -⟩ := compile_decides hsize
  exact ⟨hsize, hquestion, hfirst hquestion fun hresolved => hresolved 11 "b" hunresolved⟩

end Script

end BotScript
