import BotScript.Program.Compile

/-!
# The shape of compiled code

The code of a script, said as a relation between statements and instructions with the lengths that
the offsets stand for. Proofs about compiled programs are inductions over this relation.

## Main definitions

* `Along`: a property of the elements of a list together with their places.
* `Lowers`: some instructions are the code of a script.

## Main results

* `Statement.lowers_all`: what the compiler emits is the code of the script.
* `Script.compile_ok`: a compiled program is the code of its script, and passes the check.
* `Program.check_ok`: in a program that passes the check, jumps and calls have their targets.
-/

namespace BotScript

/-! ### Properties along a list -/

section Along

variable {α : Type} {P Q : Nat → α → Prop} {place : Nat}

/-- A property holds of every element of a list together with its place, the first one standing at a
given place. -/
def Along (P : Nat → α → Prop) : Nat → List α → Prop
  | _, [] => True
  | place, a :: rest => P place a ∧ Along P (place + 1) rest

@[simp] theorem along_nil : Along P place [] := trivial

@[simp] theorem along_cons {a : α} {rest : List α} :
    Along P place (a :: rest) ↔ P place a ∧ Along P (place + 1) rest := Iff.rfl

@[simp] theorem along_append {xs ys : List α} :
    Along P place (xs ++ ys) ↔ Along P place xs ∧ Along P (place + xs.length) ys := by
  induction xs generalizing place with
  | nil => simp
  | cons x xs ih =>
    rw [List.cons_append, along_cons, along_cons, ih, and_assoc, List.length_cons, Nat.add_assoc,
      Nat.add_comm 1]

theorem along_iff_getElem? {xs : List α} :
    Along P place xs ↔ ∀ i x, xs[i]? = some x → P (place + i) x := by
  induction xs generalizing place with
  | nil => simp
  | cons x xs ih =>
    rw [along_cons, ih]
    constructor
    · rintro ⟨hx, hxs⟩ i y hy
      cases i with
      | zero =>
        cases hy
        exact hx
      | succ i =>
        rw [← Nat.add_assoc, Nat.add_right_comm]
        exact hxs i y hy
    · intro h
      refine ⟨h 0 x rfl, ?_⟩
      intro i y hy
      rw [Nat.add_right_comm]
      exact h (i + 1) y hy

end Along

/-! ### Lowering -/

/-- Some instructions are the code of a script. -/
inductive Lowers : Script → List Instruction → Prop
  | nil : Lowers [] []
  | list {body rest : Script} {c cs : List Instruction} (hbody : Lowers body c)
      (hrest : Lowers rest cs) : Lowers (.list body :: rest) (c ++ cs)
  | command {cmd : Command} {rest : Script} {c cs : List Instruction} (hcode : cmd.code = .ok c)
      (hrest : Lowers rest cs) : Lowers (.command cmd :: rest) (c ++ cs)
  | block {name : String} {body rest : Script} {c cs : List Instruction} {skip : Int64}
      (hbody : Lowers body c) (hskip : skip.toInt = c.length + 3) (hrest : Lowers rest cs) :
      Lowers (.block name body :: rest) (.jump skip :: .label name :: (c ++ [.ret, .nop]) ++ cs)
  | branch {test : Expr} {yes no rest : Script} {cy cn cs : List Instruction} {toYes toEnd : Int64}
      (hno : Lowers no cn) (hyes : Lowers yes cy) (htoYes : toYes.toInt = cn.length + 2)
      (htoEnd : toEnd.toInt = cy.length + 1) (hrest : Lowers rest cs) :
      Lowers (.branch test yes no :: rest)
        (.jumpIf test toYes :: (cn ++ .jump toEnd :: (cy ++ [.nop])) ++ cs)
  | whileLoop {test : Expr} {body rest : Script} {c cs : List Instruction} {toEnd back : Int64}
      (hbody : Lowers body c) (htoEnd : toEnd.toInt = c.length + 2) (hback : back.toInt = -c.length)
      (hrest : Lowers rest cs) :
      Lowers (.whileLoop test body :: rest)
        (.jumpIfNot test toEnd :: (c ++ [.jumpIf test back, .nop]) ++ cs)
  | untilLoop {test : Expr} {body rest : Script} {c cs : List Instruction} {toEnd back : Int64}
      (hbody : Lowers body c) (htoEnd : toEnd.toInt = c.length + 2) (hback : back.toInt = -c.length)
      (hrest : Lowers rest cs) :
      Lowers (.untilLoop test body :: rest)
        (.enterUntil test toEnd :: (c ++ [.jump back, .nop]) ++ cs)
  | loop {body rest : Script} {c cs : List Instruction} {back : Int64} (hbody : Lowers body c)
      (hback : back.toInt = -c.length) (hrest : Lowers rest cs) :
      Lowers (.loop body :: rest) (c ++ [.jump back] ++ cs)
  | call {name : String} {rest : Script} {cs : List Instruction} (hrest : Lowers rest cs) :
      Lowers (.call name :: rest) ([.call name, .nop] ++ cs)
  | assign {name : String} {value : Expr} {rest : Script} {cs : List Instruction}
      (hrest : Lowers rest cs) : Lowers (.assign name value :: rest) ([.assign name value] ++ cs)
  | decrement {name : String} {rest : Script} {cs : List Instruction} (hrest : Lowers rest cs) :
      Lowers (.decrement name :: rest) ([.decrement name] ++ cs)

/-- An offset stands for the length it was made from, and its opposite for the way back. -/
theorem offsetOf_ok {k : Nat} {offset : Int64} (h : offsetOf k = .ok offset) :
    offset.toInt = k ∧ (-offset).toInt = -k := by
  unfold offsetOf at h
  split at h
  · rename_i hlt
    have hlt' : k < 2 ^ 63 := hlt
    cases h
    exact ⟨Int64.toInt_ofNat_of_lt hlt', Int64.toInt_neg_ofNat_of_le (Nat.le_of_lt hlt')⟩
  · cases h

/-- What comes after something that may be an error came after no error. -/
theorem CompileError.bind_ok {α β : Type} {first : Except CompileError α}
    {next : α → Except CompileError β} {b : β} (h : first >>= next = .ok b) :
    ∃ a, first = .ok a ∧ next a = .ok b := by
  cases hfirst : first with
  | ok a =>
    rw [hfirst] at h
    exact ⟨a, rfl, h⟩
  | error e =>
    rw [hfirst] at h
    cases h

open CompileError in
mutual

/-- The code of a statement, in front of the code of the following ones. -/
theorem Statement.lowers_cons {c cs : List Instruction} {rest : Script} (hrest : Lowers rest cs) :
    (s : Statement) → s.code = .ok c → Lowers (s :: rest) (c ++ cs)
  | .list body, h => .list (Statement.lowers_all body h) hrest
  | .command cmd, h => .command h hrest
  | .block name body, h => by
    obtain ⟨cb, hbody, h⟩ := bind_ok h
    obtain ⟨skip, hskip, h⟩ := bind_ok h
    cases h
    have hlowers : Lowers (.block name body :: rest) _ :=
      .block (Statement.lowers_all body hbody) (by exact_mod_cast (offsetOf_ok hskip).1) hrest
    simpa using hlowers
  | .branch test yes no, h => by
    obtain ⟨cn, hno, h⟩ := bind_ok h
    obtain ⟨cy, hyes, h⟩ := bind_ok h
    obtain ⟨toYes, htoYes, h⟩ := bind_ok h
    obtain ⟨toEnd, htoEnd, h⟩ := bind_ok h
    cases h
    have hlowers : Lowers (.branch test yes no :: rest) _ :=
      .branch (Statement.lowers_all no hno) (Statement.lowers_all yes hyes)
        (by exact_mod_cast (offsetOf_ok htoYes).1) (by exact_mod_cast (offsetOf_ok htoEnd).1) hrest
    simpa using hlowers
  | .whileLoop test body, h => by
    obtain ⟨cb, hbody, h⟩ := bind_ok h
    obtain ⟨back, hback, h⟩ := bind_ok h
    obtain ⟨toEnd, htoEnd, h⟩ := bind_ok h
    cases h
    have hlowers : Lowers (.whileLoop test body :: rest) _ :=
      .whileLoop (Statement.lowers_all body hbody) (by exact_mod_cast (offsetOf_ok htoEnd).1)
        (offsetOf_ok hback).2 hrest
    simpa using hlowers
  | .untilLoop test body, h => by
    obtain ⟨cb, hbody, h⟩ := bind_ok h
    obtain ⟨back, hback, h⟩ := bind_ok h
    obtain ⟨toEnd, htoEnd, h⟩ := bind_ok h
    cases h
    have hlowers : Lowers (.untilLoop test body :: rest) _ :=
      .untilLoop (Statement.lowers_all body hbody) (by exact_mod_cast (offsetOf_ok htoEnd).1)
        (offsetOf_ok hback).2 hrest
    simpa using hlowers
  | .loop body, h => by
    obtain ⟨cb, hbody, h⟩ := bind_ok h
    obtain ⟨back, hback, h⟩ := bind_ok h
    cases h
    have hlowers := Lowers.loop (Statement.lowers_all body hbody) (offsetOf_ok hback).2 hrest
    simpa using hlowers
  | .call name, h => by
    cases h
    exact .call hrest
  | .assign name value, h => by
    cases h
    exact .assign hrest
  | .decrement name, h => by
    cases h
    exact .decrement hrest

/-- What the compiler emits is the code of the script. -/
theorem Statement.lowers_all {c : List Instruction} :
    (s : Script) → Statement.codeAll s = .ok c → Lowers s c
  | [], h => by
    cases h
    exact .nil
  | s :: rest, h => by
    obtain ⟨first, hfirst, h⟩ := bind_ok h
    obtain ⟨others, hothers, h⟩ := bind_ok h
    cases h
    exact Statement.lowers_cons (Statement.lowers_all rest hothers) s hfirst

end

/-! ### The check -/

namespace Program

variable {p : Program} {place : Nat} {i : Instruction}

theorem checkAt_ok (h : p.checkAt place i = .ok ()) :
    (∀ offset, i.offset? = some offset → ∃ target, p.jumpTarget? place offset = some target) ∧
      ∀ name, i = .call name → ∃ target, p.labelBefore? place name = some target := by
  have hjump : ∀ offset, i.offset? = some offset → (p.jumpTarget? place offset).isSome := by
    intro offset hoffset
    cases ht : p.jumpTarget? place offset with
    | some target => rfl
    | none =>
      simp [checkAt, hoffset, ht, throw, throwThe, MonadExceptOf.throw, bind, Except.bind] at h
  refine ⟨fun offset hoffset => Option.isSome_iff_exists.mp (hjump offset hoffset), ?_⟩
  rintro name rfl
  cases ht : p.labelBefore? place name with
  | some target => exact ⟨target, rfl⟩
  | none =>
    simp [checkAt, Instruction.offset?, ht, throw, throwThe, MonadExceptOf.throw] at h

theorem checkFrom_ok {code : List Instruction} (h : p.checkFrom place code = .ok ()) :
    Along (fun place i => p.checkAt place i = .ok ()) place code := by
  induction code generalizing place with
  | nil => trivial
  | cons i rest ih =>
    obtain ⟨_, hi, hrest⟩ := CompileError.bind_ok h
    exact ⟨hi, ih hrest⟩

/-- In a program that passes the check, every jump has a target, and every call a label above it. -/
theorem check_ok (h : p.check = .ok ()) (hi : p.code[place]? = some i) :
    (∀ offset, i.offset? = some offset → ∃ target, p.jumpTarget? place offset = some target) ∧
      ∀ name, i = .call name → ∃ target, p.labelBefore? place name = some target := by
  have hat := along_iff_getElem?.mp (checkFrom_ok h) place i hi
  rw [Nat.zero_add] at hat
  exact checkAt_ok hat

/-- A target is where the offset leads. -/
theorem jumpTarget?_eq_some {offset : Int64} {target : Nat}
    (h : p.jumpTarget? place offset = some target) :
    (place : Int) + offset.toInt = target ∧ target ≤ p.length := by
  unfold jumpTarget? at h
  dsimp only at h
  split at h
  · rename_i hrange
    cases h
    simp only [Int.ofNat_eq_natCast] at hrange ⊢
    omega
  · cases h

/-! ### Labels -/

theorem lastPlace?_append_singleton {α : Type} (test : α → Bool) (xs : List α) (a : α) :
    lastPlace? test (xs ++ [a]) = if test a then some xs.length else lastPlace? test xs := by
  induction xs with
  | nil => rfl
  | cons x xs ih =>
    rw [List.cons_append, lastPlace?, ih]
    by_cases ha : test a = true
    · simp [ha]
    · simp [ha, lastPlace?]

/-- Behind a label, the label is the nearest one of its name; behind any other instruction, the
nearest one is the same as before it. -/
theorem labelBefore?_succ (hi : p.code[place]? = some i) (name : String) :
    p.labelBefore? (place + 1) name =
      if isLabel name i then some place else p.labelBefore? place name := by
  have hlt : place < p.code.length := (List.getElem?_eq_some_iff.mp hi).1
  have hget : p.code[place] = i := (List.getElem?_eq_some_iff.mp hi).2
  unfold labelBefore?
  rw [← List.take_append_getElem hlt, hget, lastPlace?_append_singleton, List.length_take,
    Nat.min_eq_left (Nat.le_of_lt hlt)]

theorem lastPlace?_eq_some {α : Type} {test : α → Bool} {xs : List α} {j : Nat}
    (h : lastPlace? test xs = some j) : ∃ a, xs[j]? = some a ∧ test a = true := by
  induction xs generalizing j with
  | nil => cases h
  | cons x xs ih =>
    rw [lastPlace?] at h
    split at h
    · rename_i k hk
      cases h
      exact ih hk
    · split at h
      · rename_i hx
        cases h
        exact ⟨x, rfl, hx⟩
      · cases h

/-- What a call goes to is a label of its name. -/
theorem getElem?_of_labelBefore? {name : String} {target : Nat}
    (h : p.labelBefore? place name = some target) : p.code[target]? = some (.label name) := by
  obtain ⟨a, ha, htest⟩ := lastPlace?_eq_some h
  have hcode : p.code[target]? = some a := by
    rw [List.getElem?_take] at ha
    split at ha
    · exact ha
    · cases ha
  cases a with
  | label other =>
    simp only [isLabel, beq_iff_eq] at htest
    rw [hcode, htest]
  | _ => cases htest

end Program

/-- A compiled program is the code of its script, and passes the check. -/
theorem Script.compile_ok {s : Script} {p : Program} (h : s.compile = .ok p) :
    Lowers s p.code ∧ p.check = .ok () := by
  obtain ⟨c, hcode, h⟩ := CompileError.bind_ok h
  obtain ⟨_, hcheck, h⟩ := CompileError.bind_ok h
  cases h
  exact ⟨Statement.lowers_all s hcode, hcheck⟩

end BotScript
