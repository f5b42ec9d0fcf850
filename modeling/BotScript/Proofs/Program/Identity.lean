import BotScript.Program.Compile
import BotScript.Proofs.Script.LegibleActions

/-!
# What the text of a program identifies

A program is known in logs by the digest of its text. The text shows names and keys as they are, so
different programs can have the same text: a key may look like a number, and a name may hold a line
feed. Programs whose names are plain have the same text exactly if they are the same up to how
negative numbers and selectors of everyone are said.

## Main definitions

* `Program.Plain`: no name in the program looks like something else.
* `Program.canonical`: the program that stands for all with the same text.
* `Program.Collides`: two texts with different bytes and the same digest.

## Main results

* `Instruction.eq_of_render`: legible instructions with the same line are the same.
* `Program.identity_eq_iff`: plain programs have the same text exactly if they have the
  same canonical form.
* `Program.fingerprint_identifies`: what equal texts and equal fingerprints say of plain programs.
* `Script.key_looks_like_number`: two scripts with different programs and the same fingerprint.
-/

namespace BotScript

open Text (IsLine IsWord IsPath Ends Stops isBreak isMark)

/-! ### Offsets -/

namespace Number

theorem toString_int (i : Int) : toString i = (if i < 0 then "-" else "") ++ toString i.natAbs := by
  cases i with
  | ofNat n =>
    rw [if_neg (by simp), String.empty_append]
    rfl
  | negSucc n =>
    rw [if_pos (Int.negSucc_lt_zero n)]
    rfl

/-- An offset is written with digits, and perhaps a minus. -/
theorem mem_toString_int {i : Int} {c : Char} (h : c ∈ (toString i).toList) :
    c = '-' ∨ c.isDigit = true := by
  rw [toString_int, String.toList_append, List.mem_append, toList_toString] at h
  rcases h with h | h
  · split_ifs at h
    · exact .inl (List.mem_singleton.1 h)
    · cases h
  · exact .inr (isDigit_of_mem_digits h)

theorem isLine_toString_int (i : Int) : IsLine (toString i) := by
  intro h
  rcases mem_toString_int h with h | h <;> exact absurd h (by decide)

/-- Offsets with the same text are the same. -/
theorem toString_int_injective : Function.Injective (toString : Int → String) := by
  intro i j h
  rw [toString_int, toString_int] at h
  -- Digits do not begin with a minus.
  have hdigits (n : Nat) (s : String) : "" ++ toString n ≠ "-" ++ s := by
    intro heq
    rw [String.empty_append, ← String.toList_inj, toList_toString] at heq
    have hminus : '-' ∈ Nat.toDigits 10 n := by simp [heq]
    exact absurd (isDigit_of_mem_digits hminus) (by decide)
  by_cases hi : i < 0 <;> by_cases hj : j < 0 <;> simp only [hi, hj, if_true, if_false] at h
  · have habs := toString_injective ((String.append_right_inj _).1 h)
    omega
  · exact absurd h.symm (hdigits _ _)
  · exact absurd h (hdigits _ _)
  · have habs := toString_injective ((String.append_right_inj _).1 h)
    omega

end Number

namespace Instruction

variable {i j : Instruction}

/-- What is written as it is in an instruction does not look like something else. -/
def Plain : Instruction → Prop
  | sleep e | jumpIf e _ | jumpIfNot e _ | enterUntil e _ => e.Plain true
  | logLiteral tokens => ∀ t ∈ tokens, t.Plain
  | logWindow _ path => IsPath true path
  | label name | call name | decrement name => IsLine name
  | act _ a => a.Plain
  | assign name value => IsWord name ∧ value.Plain true
  | kill | jump _ | ret | loadPlaystyle .. | nop => True

instance : (i : Instruction) → Decidable i.Plain
  | sleep e | jumpIf e _ | jumpIfNot e _ | enterUntil e _ =>
    inferInstanceAs (Decidable (e.Plain true))
  | logLiteral tokens => inferInstanceAs (Decidable (∀ t ∈ tokens, t.Plain))
  | logWindow _ path => inferInstanceAs (Decidable (IsPath true path))
  | label name | call name | decrement name => inferInstanceAs (Decidable (IsLine name))
  | act _ a => inferInstanceAs (Decidable a.Plain)
  | assign name value => inferInstanceAs (Decidable (IsWord name ∧ value.Plain true))
  | kill | jump _ | ret | loadPlaystyle .. | nop => inferInstanceAs (Decidable True)

/-- The instruction that stands for all with the same line. -/
def canonical : Instruction → Instruction
  | sleep e => sleep e.canonical
  | logWindow who path => logWindow who.canonical path
  | jumpIf e offset => jumpIf e.canonical offset
  | jumpIfNot e offset => jumpIfNot e.canonical offset
  | enterUntil e offset => enterUntil e.canonical offset
  | act who a => act who.canonical a.canonical
  | loadPlaystyle who text => loadPlaystyle who.canonical text
  | assign name value => assign name value.canonical
  | i => i

theorem render_canonical (i : Instruction) : i.canonical.render = i.render := by
  cases i <;>
    simp [canonical, render, kind, Expr.render_canonical, Selector.render_canonical,
      Action.render_canonical]

theorem canonical_canonical (i : Instruction) : i.canonical.canonical = i.canonical := by
  cases i <;>
    simp [canonical, Expr.canonical_canonical, Selector.canonical_canonical,
      Action.canonical_canonical]

theorem Plain.canonical (h : i.Plain) : i.canonical.Plain := by
  cases i with
  | sleep e | jumpIf e offset | jumpIfNot e offset | enterUntil e offset =>
    exact Expr.Plain.canonical h
  | act who a => exact Action.Plain.canonical h
  | assign name value => exact ⟨h.1, h.2.canonical⟩
  | _ => exact h

/-- The text of an instruction is its kind, and perhaps a blank and more. -/
theorem exists_operands (i : Instruction) : ∃ operands : String, i.render = i.kind ++ operands ∧
    Stops isMark operands.toList := by
  refine ⟨_, rfl, ?_⟩
  cases i with
  | logLiteral tokens => cases tokens <;> simp [Stops, isMark, isBreak]
  | _ => simp [Stops, isMark, isBreak]

theorem isWord_kind (i : Instruction) : IsWord i.kind := by
  have hwords : ∀ s ∈ ["kill", "sleep", "log_literal", "log_window", "jump", "jump_if", "jump_ifn",
      "enter_until", "label", "ret", "call", "deimos_call", "load_playstyle", "set_var", "dec_var",
      "nop"], IsWord s := by decide
  apply hwords
  cases i <;> simp [kind]

/-- Instructions with the same line are of the same kind. -/
theorem kind_eq_of_render (h : i.render = j.render) : i.kind = j.kind := by
  obtain ⟨operands, hrender, hstops⟩ := i.exists_operands
  obtain ⟨operands', hrender', hstops'⟩ := j.exists_operands
  rw [hrender, hrender', ← String.toList_inj, String.toList_append, String.toList_append] at h
  exact (Text.word_cancel i.isWord_kind j.isWord_kind hstops hstops' h).1

/-- The line of a plain instruction is one line. -/
theorem isLine_render (h : i.Plain) : IsLine i.render := by
  have hblank : IsLine " " := by decide
  have hcomma : IsLine ", " := by decide
  unfold render
  rw [Text.isLine_append]
  refine ⟨i.isWord_kind.isLine, ?_⟩
  cases i with
  | kill | ret | nop => decide
  | sleep e => exact Text.isLine_append.2 ⟨hblank, Expr.isLine_render h⟩
  | logLiteral tokens =>
    rw [IsLine, String.toList_join, List.mem_flatMap]
    rintro ⟨piece, hpiece, hfeed⟩
    obtain ⟨t, ht, rfl⟩ := List.mem_map.1 hpiece
    exact Text.isLine_append.2 ⟨hblank, LogToken.isLine_render (h t ht)⟩ hfeed
  | logWindow who path =>
    simp only [Text.isLine_append]
    exact ⟨⟨⟨hblank, who.isLine_render⟩, hblank⟩, IsPath.isLine h⟩
  | jump offset => exact Text.isLine_append.2 ⟨hblank, Number.isLine_toString_int _⟩
  | jumpIf e offset | jumpIfNot e offset | enterUntil e offset =>
    simp only [Text.isLine_append]
    exact ⟨⟨⟨hblank, Expr.isLine_render h⟩, hcomma⟩, Number.isLine_toString_int _⟩
  | label name | call name | decrement name => exact Text.isLine_append.2 ⟨hblank, h⟩
  | act who a =>
    simp only [Text.isLine_append]
    exact ⟨⟨⟨hblank, who.isLine_render⟩, hblank⟩, Action.isLine_render h⟩
  | loadPlaystyle who text =>
    simp only [Text.isLine_append]
    exact ⟨⟨⟨hblank, who.isLine_render⟩, hblank⟩, Text.isLine_quoted text⟩
  | assign name value =>
    simp only [Text.isLine_append]
    exact ⟨⟨⟨hblank, h.1.isLine⟩, hblank⟩, Expr.isLine_render h.2⟩

/-- An instruction that is canonical and plain. -/
structure Legible (i : Instruction) : Prop where
  canonical : i.canonical = i
  plain : i.Plain

/-- A test and the offset behind it are told apart. -/
theorem guard_cancel {e e' : Expr} {offset offset' : Int64} (he : e.Legible true)
    (he' : e'.Legible true)
    (h : " " ++ e.render ++ ", " ++ toString offset.toInt = " " ++ e'.render ++ ", " ++
      toString offset'.toInt) :
    e = e' ∧ offset = offset' := by
  have hoffset (offset : Int64) (c : Char) (hc : c ∈ (toString offset.toInt).toList.reverse) :
      (c == ' ') = false := by
    rw [List.mem_reverse] at hc
    rw [beq_eq_false_iff_ne]
    rintro rfl
    rcases Number.mem_toString_int hc with hc | hc <;> exact absurd hc (by decide)
  -- The offset has no blanks, so it is cut off at the last one.
  have hback : (toString offset.toInt).toList.reverse ++ ' ' :: ',' ::
        (e.render.toList.reverse ++ [' ']) =
      (toString offset'.toInt).toList.reverse ++ ' ' :: ',' ::
        (e'.render.toList.reverse ++ [' ']) := by
    simpa using congrArg (fun s : String => s.toList.reverse) h
  obtain ⟨hint, hrest⟩ :=
    Text.append_cancel (hoffset offset) (hoffset offset') (Text.stops_cons.2 rfl)
    (Text.stops_cons.2 rfl) hback
  rw [List.reverse_inj, String.toList_inj] at hint
  simp only [List.cons.injEq, true_and, List.append_cancel_right_eq, List.reverse_inj,
    String.toList_inj] at hrest
  exact ⟨Expr.eq_of_render he he' hrest, Int64.toInt_inj.1 (Number.toString_int_injective hint)⟩

/-- A selector and the rest of the line behind it are told apart. -/
theorem selector_cancel {who who' : Selector} {s s' : String} (hwho : who.canonical = who)
    (hwho' : who'.canonical = who')
    (h : " " ++ who.render ++ " " ++ s = " " ++ who'.render ++ " " ++ s') :
    who = who' ∧ s = s' := by
  have htext : who.render.toList ++ ' ' :: s.toList = who'.render.toList ++ ' ' :: s'.toList := by
    simpa using congrArg String.toList h
  obtain ⟨rfl, hrest⟩ := Selector.render_cancel hwho hwho' htext
  exact ⟨rfl, String.toList_inj.1 hrest⟩

/-- Legible instructions with the same line are the same. -/
theorem eq_of_render (hi : i.Legible) (hj : j.Legible) (h : i.render = j.render) : i = j := by
  have hkind := kind_eq_of_render h
  unfold render at h
  rw [hkind, String.append_right_inj] at h
  have hoperand {s t : String} (heq : " " ++ s = " " ++ t) : s = t :=
    (String.append_right_inj _).1 heq
  -- Lines of different kinds differ; for each kind, the operands are read one after the other.
  cases i with
  | kill =>
    cases j with
    | kill => rfl
    | _ => simp [kind] at hkind
  | sleep e =>
    cases j with
    | sleep e' =>
      have he := Expr.eq_of_render ⟨sleep.inj hi.canonical, hi.plain⟩
        ⟨sleep.inj hj.canonical, hj.plain⟩ (hoperand h)
      rw [he]
    | _ => simp [kind] at hkind
  | logLiteral tokens =>
    cases j with
    | logLiteral tokens' =>
      have htext := congrArg String.toList h
      simp only [String.toList_join, List.flatMap_map, String.toList_append] at htext
      rw [LogToken.eq_of_flatMap hi.plain hj.plain htext]
    | _ => simp [kind] at hkind
  | logWindow who path =>
    cases j with
    | logWindow who' path' =>
      obtain ⟨rfl, hpath⟩ :=
        selector_cancel (logWindow.inj hi.canonical).1 (logWindow.inj hj.canonical).1 h
      rw [IsPath.eq hi.plain hj.plain hpath]
    | _ => simp [kind] at hkind
  | jump offset =>
    cases j with
    | jump offset' => rw [Int64.toInt_inj.1 (Number.toString_int_injective (hoperand h))]
    | _ => simp [kind] at hkind
  | jumpIf e offset =>
    cases j with
    | jumpIf e' offset' =>
      obtain ⟨rfl, rfl⟩ := guard_cancel ⟨(jumpIf.inj hi.canonical).1, hi.plain⟩
        ⟨(jumpIf.inj hj.canonical).1, hj.plain⟩ h
      rfl
    | _ => simp [kind] at hkind
  | jumpIfNot e offset =>
    cases j with
    | jumpIfNot e' offset' =>
      obtain ⟨rfl, rfl⟩ := guard_cancel ⟨(jumpIfNot.inj hi.canonical).1, hi.plain⟩
        ⟨(jumpIfNot.inj hj.canonical).1, hj.plain⟩ h
      rfl
    | _ => simp [kind] at hkind
  | enterUntil e offset =>
    cases j with
    | enterUntil e' offset' =>
      obtain ⟨rfl, rfl⟩ := guard_cancel ⟨(enterUntil.inj hi.canonical).1, hi.plain⟩
        ⟨(enterUntil.inj hj.canonical).1, hj.plain⟩ h
      rfl
    | _ => simp [kind] at hkind
  | label name =>
    cases j with
    | label name' => rw [hoperand h]
    | _ => simp [kind] at hkind
  | ret =>
    cases j with
    | ret => rfl
    | _ => simp [kind] at hkind
  | call name =>
    cases j with
    | call name' => rw [hoperand h]
    | _ => simp [kind] at hkind
  | act who a =>
    cases j with
    | act who' a' =>
      have hcanonical := act.inj hi.canonical
      have hcanonical' := act.inj hj.canonical
      obtain ⟨rfl, haction⟩ := selector_cancel hcanonical.1 hcanonical'.1 h
      rw [Action.eq_of_render ⟨hcanonical.2, hi.plain⟩ ⟨hcanonical'.2, hj.plain⟩ haction]
    | _ => simp [kind] at hkind
  | loadPlaystyle who text =>
    cases j with
    | loadPlaystyle who' text' =>
      obtain ⟨rfl, htext⟩ := selector_cancel (loadPlaystyle.inj hi.canonical).1
        (loadPlaystyle.inj hj.canonical).1 h
      rw [Text.quoted_injective htext]
    | _ => simp [kind] at hkind
  | assign name value =>
    cases j with
    | assign name' value' =>
      have htext : name.toList ++ ' ' :: value.render.toList = name'.toList ++ ' ' ::
          value'.render.toList := by
        simpa using congrArg String.toList h
      obtain ⟨rfl, hrest⟩ := Text.word_cancel hi.plain.1 hj.plain.1 (Text.stops_cons.2 rfl)
        (Text.stops_cons.2 rfl) htext
      have hvalue := Expr.eq_of_render ⟨(assign.inj hi.canonical).2, hi.plain.2⟩
        ⟨(assign.inj hj.canonical).2, hj.plain.2⟩ (String.toList_inj.1 (List.cons.inj hrest).2)
      rw [hvalue]
    | _ => simp [kind] at hkind
  | decrement name =>
    cases j with
    | decrement name' => rw [hoperand h]
    | _ => simp [kind] at hkind
  | nop =>
    cases j with
    | nop => rfl
    | _ => simp [kind] at hkind

end Instruction

/-! ### Programs -/

namespace Program

variable {p q : Program}

/-- No name in the program looks like something else. -/
def Plain (p : Program) : Prop := ∀ i ∈ p.code, i.Plain

instance : Decidable p.Plain := inferInstanceAs (Decidable (∀ i ∈ p.code, i.Plain))

/-- The program that stands for all with the same text. -/
def canonical (p : Program) : Program := ⟨p.code.map Instruction.canonical⟩

theorem identity_canonical (p : Program) : p.canonical.identity = p.identity := by
  simp [identity, canonical, Instruction.render_canonical, Function.comp_def]

theorem toList_identity (p : Program) :
    p.identity.toList = p.code.flatMap fun i => i.render.toList ++ ['\n'] := by
  simp [identity, String.toList_join, List.flatMap_map]

/-- Legible instructions whose lines are the same text are the same. -/
theorem eq_of_flatMap {code code' : List Instruction} (hcode : ∀ i ∈ code, i.Legible)
    (hcode' : ∀ i ∈ code', i.Legible) (h : code.flatMap (fun i => i.render.toList ++ ['\n']) =
      code'.flatMap fun i => i.render.toList ++ ['\n']) : code = code' := by
  have hfeed {i : Instruction} (hi : i.Legible) (c : Char) (hc : c ∈ i.render.toList) :
      (c == '\n') = false := by
    rw [beq_eq_false_iff_ne]
    rintro rfl
    exact Instruction.isLine_render hi.plain hc
  induction code generalizing code' with
  | nil =>
    cases code' with
    | nil => rfl
    | cons j code' => simp at h
  | cons i code ih =>
    cases code' with
    | nil => simp at h
    | cons j code' =>
      rw [List.forall_mem_cons] at hcode hcode'
      rw [List.flatMap_cons, List.flatMap_cons, List.append_assoc, List.append_assoc] at h
      -- The first line ends at the first line feed.
      obtain ⟨hline, hrest⟩ :=
        Text.append_cancel (hfeed hcode.1) (hfeed hcode'.1) (Text.stops_cons.2 rfl)
        (Text.stops_cons.2 rfl) h
      rw [Instruction.eq_of_render hcode.1 hcode'.1 (String.toList_inj.1 hline),
        ih hcode.2 hcode'.2 (List.cons.inj hrest).2]

theorem Plain.legible (h : p.Plain) : ∀ i ∈ p.canonical.code, i.Legible := by
  intro i hi
  obtain ⟨j, hj, rfl⟩ := List.mem_map.1 hi
  exact ⟨j.canonical_canonical, (h j hj).canonical⟩

/-- Plain programs have the same text exactly if they are the same up to what the text
does not show. -/
theorem identity_eq_iff (hp : p.Plain) (hq : q.Plain) :
    p.identity = q.identity ↔ p.canonical = q.canonical := by
  constructor
  · intro h
    rw [← identity_canonical, ← identity_canonical q, ← String.toList_inj, toList_identity,
      toList_identity] at h
    have hcode := eq_of_flatMap hp.legible hq.legible h
    exact congrArg mk hcode
  · intro h
    rw [← identity_canonical, h, identity_canonical]

/-- Different bytes with the same digest. -/
def Collides (s t : String) : Prop :=
  s.toUTF8 ≠ t.toUTF8 ∧ Text.Digest.sha256Hex s = Text.Digest.sha256Hex t

/-- Plain programs have the same bytes hashed exactly if they are the same up to what the text does
not show, and the same fingerprint exactly if that is so or their texts collide. -/
theorem fingerprint_identifies (hp : p.Plain) (hq : q.Plain) :
    (p.identity.toUTF8 = q.identity.toUTF8 ↔ p.canonical = q.canonical) ∧
      (p.fingerprint = q.fingerprint ↔ p.canonical = q.canonical ∨
        Collides p.identity q.identity) := by
  have hbytes : p.identity.toUTF8 = q.identity.toUTF8 ↔ p.canonical = q.canonical := by
    rw [String.toUTF8_eq_toByteArray, String.toUTF8_eq_toByteArray, String.toByteArray_inj,
      identity_eq_iff hp hq]
  refine ⟨hbytes, ?_⟩
  constructor
  · intro h
    by_cases hsame : p.canonical = q.canonical
    · exact .inl hsame
    · exact .inr ⟨fun heq => hsame (hbytes.1 heq), h⟩
  · rintro (hsame | hcollides)
    · rw [fingerprint, (identity_eq_iff hp hq).2 hsame, fingerprint]
    · exact hcollides.2

/-- A program with names, paths, numbers and selectors of several forms. -/
def patrol (step : Expr) (who : Selector) (key : Expr) : Program :=
  ⟨[.label "patrol", .assign "rounds" (.number 3), .logLiteral [.word "round", .string "one, two"],
    .act who (.teleport (.position (.position step (.number 0.5) (.var "rounds")))),
    .enterUntil (.ask (.except (.ofList [0, 2])) (.inZone ["Hub", "North gate"])) 4,
    .act who (.sendKey key (some (.number 0.1))), .decrement "rounds", .jump (-2),
    .act .all (.waitFor ⟨.window ["Main", "Loading bar"], true⟩), .kill]⟩

/-- Saying a step of minus one in two ways, for everyone in two ways, leaves the bytes as they are;
pressing the key of a variable in place of a key changes them. -/
theorem patrols_identified :
    let plain := patrol (.number (-1)) .all (.key "W")
    let respelled := patrol (.unary .negate (.number 1)) ⟨true, true, .ofList [5]⟩ (.key "W")
    let other := patrol (.number (-1)) .all (.var "W")
    (plain.Plain ∧ respelled.Plain ∧ other.Plain) ∧
    plain.identity.toUTF8 = respelled.identity.toUTF8 ∧
      plain.fingerprint = respelled.fingerprint ∧
      plain.identity.toUTF8 ≠ other.identity.toUTF8 := by
  intro plain respelled other
  have hplain : plain.Plain := by decide
  have hrespelled : respelled.Plain := by decide
  have hother : other.Plain := by decide
  have hsame : plain.canonical = respelled.canonical := by
    have hminus : Number.isNegative (-1) = true := by decide +kernel
    have hone : Number.isNegative 1 = false := by decide +kernel
    have hopposite : (-(-1) : Float) = 1 := by decide +kernel
    simp [plain, respelled, patrol, canonical, Instruction.canonical, Action.canonical,
      Destination.canonical,
      Expr.canonical, Selector.canonical, Selector.all, hminus, hone, hopposite]
  have hdifferent : plain.canonical ≠ other.canonical := by
    simp [plain, other, patrol, canonical, Instruction.canonical, Action.canonical, Expr.canonical]
  have hidentified := fingerprint_identifies hplain hrespelled
  refine ⟨⟨hplain, hrespelled, hother⟩, hidentified.1.2 hsame, hidentified.2.2 (.inl hsame), ?_⟩
  intro hbytes
  exact hdifferent ((fingerprint_identifies hplain hother).1.1 hbytes)

end Program

/-- The script that presses the key `1` and the script that presses the number `1` have different
programs with the same bytes hashed, so the fingerprint does not tell them apart. -/
theorem Script.key_looks_like_number :
    ∃ p q : Program,
      Script.compile [.command ⟨.all, .act (.sendKey (.key "1") none)⟩] = .ok p ∧
      Script.compile [.command ⟨.all, .act (.sendKey (.number 1) none)⟩] = .ok q ∧
      p ≠ q ∧ p.identity.toUTF8 = q.identity.toUTF8 ∧ p.fingerprint = q.fingerprint := by
  have htext : Number.text 1 = "1" := by decide +kernel
  have hidentity : Program.identity ⟨[.act .all (.sendKey (.key "1") none)]⟩ =
      Program.identity ⟨[.act .all (.sendKey (.number 1) none)]⟩ := by
    simp [Program.identity, Instruction.render, Instruction.kind, Action.render, Action.name,
      Expr.render, htext]
  refine ⟨_, _, rfl, rfl, ?_, congrArg String.toUTF8 hidentity,
    congrArg Text.Digest.sha256Hex hidentity⟩
  rintro ⟨⟩

end BotScript
