import BotScript.Proofs.Script.Legible

/-!
# Actions and log tokens are told by their texts

An action is the last thing on its line, and so is a list of log tokens. Their texts begin with a
name or a quote, or are separated by blanks, so that what they are made of can be read off, as long
as it is plain.

## Main definitions

* `Destination.Plain`, `Wait.Plain`, `Action.Plain`, `LogToken.Plain`: what is written as it is does
  not look like something else.
* `Action.canonical`: the action that stands for all with the same text.

## Main results

* `Action.eq_of_render`: legible actions with the same text are the same.
* `LogToken.eq_of_flatMap`: plain tokens with the same texts on a line are the same.
-/

namespace BotScript

open Text (IsLine IsWord IsPath Ends Stops isBreak isMark)

variable {r r' : List Char}

/-! ### Destinations -/

/-- Whether a form is one of destinations that are no expressions. -/
def Opening.isGoal : Opening → Bool
  | entity | entityLike | mob | quest | friendIcon | friendName => true
  | number | string | key | position | negate | not | ask | var => false

theorem Expr.isGoal_form (e : Expr) : e.form.isGoal = false := by
  cases e with
  | unary op e => cases op <;> rfl
  | _ => rfl

namespace Destination

variable {d d' : Destination}

/-- The expression in a destination, if there is one, is plain. -/
def Plain : Destination → Prop
  | position e => e.Plain true
  | _ => True

instance : (d : Destination) → Decidable d.Plain
  | position e => inferInstanceAs (Decidable (e.Plain true))
  | entity _ | entityLike _ | mob | quest | friendIcon | friendName _ =>
    inferInstanceAs (Decidable True)

/-- The destination that stands for all with the same text. -/
def canonical : Destination → Destination
  | position e => position e.canonical
  | d => d

theorem render_canonical (d : Destination) : d.canonical.render = d.render := by
  cases d with
  | position e => exact e.render_canonical
  | _ => rfl

theorem canonical_canonical (d : Destination) : d.canonical.canonical = d.canonical := by
  cases d with
  | position e => exact congrArg position e.canonical_canonical
  | _ => rfl

theorem Plain.canonical (h : d.Plain) : d.canonical.Plain := by
  cases d with
  | position e => exact Expr.Plain.canonical h
  | _ => exact h

theorem isLine_render (h : d.Plain) : IsLine d.render := by
  cases d with
  | position e => exact Expr.isLine_render h
  | entity name | entityLike name | friendName name =>
    exact Text.isLine_append.2 ⟨by decide, Text.isLine_quoted name⟩
  | mob | quest | friendIcon => decide

/-- A destination that is canonical and plain. -/
structure Legible (d : Destination) : Prop where
  canonical : d.canonical = d
  plain : d.Plain

theorem Legible.position {e : Expr} (h : (position e).Legible) : e.Legible true :=
  ⟨position.inj h.canonical, h.plain⟩

/-- The form of a destination. -/
def form : Destination → Opening
  | position e => e.form
  | entity _ => .entity
  | entityLike _ => .entityLike
  | mob => .mob
  | quest => .quest
  | friendIcon => .friendIcon
  | friendName _ => .friendName

/-- The form of a destination can be told from its text. -/
theorem ofText_render (h : d.Legible) : Opening.ofText d.render.toList = d.form := by
  cases d with
  | position e =>
    have hform := Expr.ofText_render h.position (r := []) rfl
    rwa [List.append_nil] at hform
  | entity name =>
    have hword : "entity ".toList = "entity".toList ++ [' '] := by simp
    rw [render, String.toList_append, hword, List.append_assoc]
    exact Opening.ofText_reserved (by simp [Opening.words, form]) (Text.stops_cons.2 rfl)
  | entityLike name =>
    have hword : "entity_vague ".toList = "entity_vague".toList ++ [' '] := by simp
    rw [render, String.toList_append, hword, List.append_assoc]
    exact Opening.ofText_reserved (by simp [Opening.words, form]) (Text.stops_cons.2 rfl)
  | friendName name =>
    have hword : "friend_name ".toList = "friend_name".toList ++ [' '] := by simp
    rw [render, String.toList_append, hword, List.append_assoc]
    exact Opening.ofText_reserved (by simp [Opening.words, form]) (Text.stops_cons.2 rfl)
  | mob | quest | friendIcon => rfl

/-- A position does not look like another destination. -/
theorem form_ne_of_isGoal {e : Expr} (h : d.form.isGoal = true) : e.form ≠ d.form := by
  intro heq
  rw [← heq, e.isGoal_form] at h
  cases h

/-- Legible destinations with the same text are the same. -/
theorem eq_of_render (hd : d.Legible) (hd' : d'.Legible) (h : d.render = d'.render) : d = d' := by
  have hform : d.form = d'.form := by rw [← ofText_render hd, h, ofText_render hd']
  cases d with
  | position e =>
    cases d' with
    | position e' => rw [Expr.eq_of_render hd.position hd'.position h]
    | _ => exact absurd hform (form_ne_of_isGoal rfl)
  | entity name =>
    cases d' with
    | entity name' => rw [Text.quoted_injective ((String.append_right_inj _).1 h)]
    | position e => exact absurd hform.symm (form_ne_of_isGoal rfl)
    | _ => cases hform
  | entityLike name =>
    cases d' with
    | entityLike name' => rw [Text.quoted_injective ((String.append_right_inj _).1 h)]
    | position e => exact absurd hform.symm (form_ne_of_isGoal rfl)
    | _ => cases hform
  | friendName name =>
    cases d' with
    | friendName name' => rw [Text.quoted_injective ((String.append_right_inj _).1 h)]
    | position e => exact absurd hform.symm (form_ne_of_isGoal rfl)
    | _ => cases hform
  | mob =>
    cases d' with
    | mob => rfl
    | position e => exact absurd hform.symm (form_ne_of_isGoal rfl)
    | _ => cases hform
  | quest =>
    cases d' with
    | quest => rfl
    | position e => exact absurd hform.symm (form_ne_of_isGoal rfl)
    | _ => cases hform
  | friendIcon =>
    cases d' with
    | friendIcon => rfl
    | position e => exact absurd hform.symm (form_ne_of_isGoal rfl)
    | _ => cases hform

end Destination

/-! ### Waits -/

/-- The path of a window, if there is one, can be read off the text, and does not end like a wait
for the completion. -/
def WaitKind.Plain : WaitKind → Prop
  | window path => IsPath true path ∧ ¬ " completion".toList <:+ (Text.joinPath path).toList
  | _ => True

instance : (k : WaitKind) → Decidable k.Plain
  | .window path =>
    inferInstanceAs (Decidable (IsPath true path ∧ ¬ _ <:+ (Text.joinPath path).toList))
  | .dialog | .battle | .free | .zoneChange => inferInstanceAs (Decidable True)

theorem WaitKind.isLine_render {k : WaitKind} (h : k.Plain) : IsLine k.render := by
  cases k with
  | window path => exact Text.isLine_append.2 ⟨by decide, IsPath.isLine h.1⟩
  | dialog | battle | free | zoneChange => decide

namespace Wait

variable {w w' : Wait}

theorem isLine_render (h : w.kind.Plain) : IsLine w.render := by
  rw [render, Text.isLine_append]
  refine ⟨WaitKind.isLine_render h, ?_⟩
  split_ifs <;> decide

/-- What is waited for at the end of a text is told from the mark of a wait for the completion. -/
theorem completion_cancel {u v : String} {completion completion' : Bool}
    (hu : ¬ " completion".toList <:+ u.toList) (hv : ¬ " completion".toList <:+ v.toList)
    (h : u ++ (if completion then " completion" else "") =
      v ++ (if completion' then " completion" else "")) :
    u = v ∧ completion = completion' := by
  cases completion with
  | true =>
    cases completion' with
    | true => exact ⟨(String.append_left_inj _).1 h, rfl⟩
    | false =>
      apply absurd _ hv
      rw [← show u ++ " completion" = v by simpa using h, String.toList_append]
      exact List.suffix_append _ _
  | false =>
    cases completion' with
    | true =>
      apply absurd _ hu
      rw [show u = v ++ " completion" by simpa using h, String.toList_append]
      exact List.suffix_append _ _
    | false => exact ⟨by simpa using h, rfl⟩

theorem completion_eq_of_render {kind : WaitKind} {completion completion' : Bool}
    (h : render ⟨kind, completion⟩ = render ⟨kind, completion'⟩) : completion = completion' := by
  rw [render, render, String.append_right_inj] at h
  cases completion <;> cases completion' <;> simp at h ⊢

/-- Plain waits with the same text are the same. -/
theorem eq_of_render (hw : w.kind.Plain) (hw' : w'.kind.Plain) (h : w.render = w'.render) :
    w = w' := by
  obtain ⟨kind, completion⟩ := w
  obtain ⟨kind', completion'⟩ := w'
  have htext := congrArg String.toList h
  cases kind with
  | window path =>
    cases kind' with
    | window path' =>
      rw [render, render, WaitKind.render, WaitKind.render, String.append_assoc,
        String.append_assoc, String.append_right_inj] at h
      obtain ⟨hpath, rfl⟩ := completion_cancel hw.2 hw'.2 h
      rw [IsPath.eq hw.1 hw'.1 hpath]
    | _ => simp [render, WaitKind.render] at htext
  | dialog =>
    cases kind' with
    | dialog => rw [completion_eq_of_render h]
    | _ => simp [render, WaitKind.render] at htext
  | battle =>
    cases kind' with
    | battle => rw [completion_eq_of_render h]
    | _ => simp [render, WaitKind.render] at htext
  | free =>
    cases kind' with
    | free => rw [completion_eq_of_render h]
    | _ => simp [render, WaitKind.render] at htext
  | zoneChange =>
    cases kind' with
    | zoneChange => rw [completion_eq_of_render h]
    | _ => simp [render, WaitKind.render] at htext

end Wait

/-! ### Actions -/

namespace Action

variable {a a' : Action}

/-- What is written as it is in an action does not look like something else. -/
def Plain : Action → Prop
  | sendKey key none => key.Plain false
  | sendKey key (some seconds) => key.Plain false ∧ seconds.Plain true
  | click x y => x.Plain false ∧ y.Plain true
  | teleport goal => goal.Plain
  | goTo target => target.Plain true
  | toZone path => IsPath true path
  | waitFor w => w.kind.Plain
  | usePotion | buyPotions | relog => True

instance : (a : Action) → Decidable a.Plain
  | sendKey key none => inferInstanceAs (Decidable (key.Plain false))
  | sendKey key (some seconds) => inferInstanceAs (Decidable (key.Plain false ∧ seconds.Plain true))
  | click x y => inferInstanceAs (Decidable (x.Plain false ∧ y.Plain true))
  | teleport goal => inferInstanceAs (Decidable goal.Plain)
  | goTo target => inferInstanceAs (Decidable (target.Plain true))
  | toZone path => inferInstanceAs (Decidable (IsPath true path))
  | waitFor w => inferInstanceAs (Decidable w.kind.Plain)
  | usePotion | buyPotions | relog => inferInstanceAs (Decidable True)

/-- The action that stands for all with the same text. -/
def canonical : Action → Action
  | sendKey key seconds => sendKey key.canonical (seconds.map Expr.canonical)
  | click x y => click x.canonical y.canonical
  | teleport goal => teleport goal.canonical
  | goTo target => goTo target.canonical
  | a => a

theorem render_canonical (a : Action) : a.canonical.render = a.render := by
  cases a with
  | sendKey key seconds => cases seconds <;> simp [canonical, render, name, Expr.render_canonical]
  | click x y => simp [canonical, render, name, Expr.render_canonical]
  | teleport goal => simp [canonical, render, name, Destination.render_canonical]
  | goTo target => simp [canonical, render, name, Expr.render_canonical]
  | _ => rfl

theorem canonical_canonical (a : Action) : a.canonical.canonical = a.canonical := by
  cases a with
  | sendKey key seconds => cases seconds <;> simp [canonical, Expr.canonical_canonical]
  | click x y => simp [canonical, Expr.canonical_canonical]
  | teleport goal => simp [canonical, Destination.canonical_canonical]
  | goTo target => simp [canonical, Expr.canonical_canonical]
  | _ => rfl

theorem Plain.canonical (h : a.Plain) : a.canonical.Plain := by
  cases a with
  | sendKey key seconds =>
    cases seconds with
    | none => exact Expr.Plain.canonical h
    | some seconds => exact ⟨h.1.canonical, h.2.canonical⟩
  | click x y => exact ⟨h.1.canonical, h.2.canonical⟩
  | teleport goal => exact Destination.Plain.canonical h
  | goTo target => exact Expr.Plain.canonical h
  | _ => exact h

theorem isLine_render (h : a.Plain) : IsLine a.render := by
  cases a with
  | sendKey key seconds =>
    cases seconds with
    | none =>
      simp only [render, name, Text.isLine_append]
      exact ⟨by decide, by decide, Expr.isLine_render h⟩
    | some seconds =>
      simp only [render, name, Text.isLine_append]
      exact ⟨by decide, ⟨⟨by decide, Expr.isLine_render h.1⟩, by decide⟩, Expr.isLine_render h.2⟩
  | click x y =>
    simp only [render, name, Text.isLine_append]
    exact ⟨by decide, ⟨⟨by decide, Expr.isLine_render h.1⟩, by decide⟩, Expr.isLine_render h.2⟩
  | teleport goal =>
    simp only [render, name, Text.isLine_append]
    exact ⟨by decide, by decide, Destination.isLine_render h⟩
  | goTo target =>
    simp only [render, name, Text.isLine_append]
    exact ⟨by decide, by decide, Expr.isLine_render h⟩
  | toZone path =>
    simp only [render, name, Text.isLine_append]
    exact ⟨by decide, by decide, IsPath.isLine h⟩
  | waitFor w =>
    simp only [render, name, Text.isLine_append]
    exact ⟨by decide, by decide, Wait.isLine_render h⟩
  | usePotion | buyPotions | relog => decide

/-- An action that is canonical and plain. -/
structure Legible (a : Action) : Prop where
  canonical : a.canonical = a
  plain : a.Plain

theorem Legible.sendKey {key : Expr} {seconds : Option Expr} (h : (sendKey key seconds).Legible) :
    key.Legible false ∧ ∀ e ∈ seconds, e.Legible true := by
  obtain ⟨hcanonical, hplain⟩ := h
  rw [Action.canonical, sendKey.injEq] at hcanonical
  cases seconds with
  | none =>
    refine ⟨⟨hcanonical.1, hplain⟩, ?_⟩
    rintro e ⟨⟩
  | some seconds =>
    refine ⟨⟨hcanonical.1, hplain.1⟩, ?_⟩
    rintro e ⟨⟩
    exact ⟨Option.some.inj hcanonical.2, hplain.2⟩

theorem Legible.click {x y : Expr} (h : (click x y).Legible) :
    x.Legible false ∧ y.Legible true := by
  obtain ⟨hcanonical, hplain⟩ := h
  rw [Action.canonical, click.injEq] at hcanonical
  exact ⟨⟨hcanonical.1, hplain.1⟩, ⟨hcanonical.2, hplain.2⟩⟩

/-- The text of an action is its name, and perhaps a blank and more. -/
theorem exists_operands (a : Action) : ∃ operands : String, a.render = a.name ++ operands ∧
    Stops isMark operands.toList := by
  refine ⟨_, rfl, ?_⟩
  cases a with
  | sendKey key seconds => cases seconds <;> simp [Stops, isMark, isBreak]
  | _ => simp [Stops, isMark, isBreak]

theorem isWord_name (a : Action) : IsWord a.name := by
  have hwords : ∀ s ∈ ["sendkey", "click", "teleport", "goto", "usepotion", "buypotions", "relog",
      "tozone", "waitfor"], IsWord s := by decide
  apply hwords
  cases a <;> simp [name]

/-- Actions with the same text have the same name. -/
theorem name_eq_of_render (h : a.render = a'.render) : a.name = a'.name := by
  obtain ⟨operands, hrender, hstops⟩ := a.exists_operands
  obtain ⟨operands', hrender', hstops'⟩ := a'.exists_operands
  rw [hrender, hrender', ← String.toList_inj, String.toList_append, String.toList_append] at h
  exact (Text.word_cancel a.isWord_name a'.isWord_name hstops hstops' h).1

/-- The text of a key press shows the key, and whether there are seconds. -/
theorem sendKey_eq_of_render {key key' : Expr} {seconds seconds' : Option Expr}
    (h : (sendKey key seconds).Legible) (h' : (sendKey key' seconds').Legible)
    (heq : (sendKey key seconds).render = (sendKey key' seconds').render) :
    sendKey key seconds = sendKey key' seconds' := by
  obtain ⟨hkey, hseconds⟩ := h.sendKey
  obtain ⟨hkey', hseconds'⟩ := h'.sendKey
  have hends (seconds : Option Expr) :
      Ends false (seconds.elim [] fun e => ' ' :: e.render.toList) := by
    cases seconds with
    | none => exact Text.stops_nil
    | some e => exact Text.stops_cons.2 rfl
  have htext : key.render.toList ++ (seconds.elim [] fun e => ' ' :: e.render.toList) =
      key'.render.toList ++ (seconds'.elim [] fun e => ' ' :: e.render.toList) := by
    cases seconds <;> cases seconds' <;> simpa [render, name] using congrArg String.toList heq
  obtain ⟨rfl, hrest⟩ := Expr.render_cancel hkey hkey' (hends seconds) (hends seconds') htext
  cases seconds with
  | none =>
    cases seconds' with
    | none => rfl
    | some e' => cases hrest
  | some e =>
    cases seconds' with
    | none => cases hrest
    | some e' =>
      rw [Expr.eq_of_render (hseconds e rfl) (hseconds' e' rfl)
        (String.toList_inj.1 (List.cons.inj hrest).2)]

/-- Legible actions with the same text are the same. -/
theorem eq_of_render (ha : a.Legible) (ha' : a'.Legible) (h : a.render = a'.render) : a = a' := by
  have hname := name_eq_of_render h
  cases a with
  | sendKey key seconds =>
    cases a' with
    | sendKey key' seconds' => exact sendKey_eq_of_render ha ha' h
    | _ => simp [name] at hname
  | click x y =>
    cases a' with
    | click x' y' =>
      obtain ⟨hx, hy⟩ := ha.click
      obtain ⟨hx', hy'⟩ := ha'.click
      have htext : x.render.toList ++ ' ' :: y.render.toList = x'.render.toList ++ ' ' ::
          y'.render.toList := by
        simpa [render, name] using congrArg String.toList h
      obtain ⟨rfl, hrest⟩ :=
        Expr.render_cancel hx hx' (Text.stops_cons.2 rfl) (Text.stops_cons.2 rfl) htext
      rw [Expr.eq_of_render hy hy' (String.toList_inj.1 (List.cons.inj hrest).2)]
    | _ => simp [name] at hname
  | teleport goal =>
    cases a' with
    | teleport goal' =>
      have hgoal := Destination.eq_of_render ⟨teleport.inj ha.canonical, ha.plain⟩
        ⟨teleport.inj ha'.canonical, ha'.plain⟩ (by simpa [render, name] using h)
      rw [hgoal]
    | _ => simp [name] at hname
  | goTo target =>
    cases a' with
    | goTo target' =>
      have htarget := Expr.eq_of_render ⟨goTo.inj ha.canonical, ha.plain⟩
        ⟨goTo.inj ha'.canonical, ha'.plain⟩
        (by simpa [render, name] using h)
      rw [htarget]
    | _ => simp [name] at hname
  | toZone path =>
    cases a' with
    | toZone path' => rw [IsPath.eq ha.plain ha'.plain (by simpa [render, name] using h)]
    | _ => simp [name] at hname
  | waitFor w =>
    cases a' with
    | waitFor w' => rw [Wait.eq_of_render ha.plain ha'.plain (by simpa [render, name] using h)]
    | _ => simp [name] at hname
  | usePotion =>
    cases a' with
    | usePotion => rfl
    | _ => simp [name] at hname
  | buyPotions =>
    cases a' with
    | buyPotions => rfl
    | _ => simp [name] at hname
  | relog =>
    cases a' with
    | relog => rfl
    | _ => simp [name] at hname

end Action

/-! ### Log tokens -/

namespace LogToken

/-- A word without blanks, that does not look like a quoted text. -/
def Plain : LogToken → Prop
  | string _ => True
  | word s => IsLine s ∧ ' ' ∉ s.toList ∧ s.toList.head? ≠ some '"'

instance : (t : LogToken) → Decidable t.Plain
  | string _ => inferInstanceAs (Decidable True)
  | word s => inferInstanceAs (Decidable (IsLine s ∧ ' ' ∉ s.toList ∧ s.toList.head? ≠ some '"'))

variable {t t' : LogToken}

theorem isLine_render (h : t.Plain) : IsLine t.render := by
  cases t with
  | string s => exact Text.isLine_quoted s
  | word s => exact h.1

theorem blank_not_mem {s : String} (h : (word s).Plain) : ∀ c ∈ s.toList, (c == ' ') = false := by
  intro c hc
  rw [beq_eq_false_iff_ne]
  rintro rfl
  exact h.2.1 hc

/-- A word, and what follows it, does not begin with a quote. -/
theorem head_of_word {s : String} (h : (word s).Plain) (hr : Stops (· == ' ') r) :
    (s.toList ++ r).head? ≠ some '"' := by
  cases hs : s.toList with
  | nil =>
    intro hquote
    exact absurd (hr '"' hquote) (by decide)
  | cons c rest =>
    have hhead := h.2.2
    rwa [hs] at hhead

/-- A token is told from the blank that follows. -/
theorem render_cancel (ht : t.Plain) (ht' : t'.Plain) (hr : Stops (· == ' ') r)
    (hr' : Stops (· == ' ') r') (h : t.render.toList ++ r = t'.render.toList ++ r') :
    t = t' ∧ r = r' := by
  have hquote (s : String) (r : List Char) : ((string s).render.toList ++ r).head? = some '"' := by
    rw [render, Text.toList_quoted]
    rfl
  cases t with
  | string s =>
    cases t' with
    | string s' =>
      obtain ⟨rfl, hrest⟩ := Text.quoted_cancel h
      exact ⟨rfl, hrest⟩
    | word s' => exact absurd (h ▸ hquote s r) (head_of_word ht' hr')
  | word s =>
    cases t' with
    | string s' => exact absurd (h ▸ hquote s' r') (head_of_word ht hr)
    | word s' =>
      obtain ⟨htext, hrest⟩ := Text.append_cancel (blank_not_mem ht) (blank_not_mem ht') hr hr' h
      rw [String.toList_inj.1 htext]
      exact ⟨rfl, hrest⟩

/-- Plain tokens with the same texts on a line are the same. -/
theorem eq_of_flatMap {ts ts' : List LogToken} (hts : ∀ t ∈ ts, t.Plain) (hts' : ∀ t ∈ ts', t.Plain)
    (h : ts.flatMap (fun t => ' ' :: t.render.toList) =
      ts'.flatMap (fun t => ' ' :: t.render.toList)) :
    ts = ts' := by
  have hstops (ts : List LogToken) :
      Stops (· == ' ') (ts.flatMap fun t => ' ' :: t.render.toList) := by
    cases ts with
    | nil => exact Text.stops_nil
    | cons t ts => exact Text.stops_cons.2 rfl
  induction ts generalizing ts' with
  | nil =>
    cases ts' with
    | nil => rfl
    | cons t' ts' => cases h
  | cons t ts ih =>
    cases ts' with
    | nil => cases h
    | cons t' ts' =>
      rw [List.forall_mem_cons] at hts hts'
      rw [List.flatMap_cons, List.flatMap_cons, List.cons_append, List.cons_append,
        List.cons.injEq] at h
      obtain ⟨rfl, hrest⟩ := render_cancel hts.1 hts'.1 (hstops ts) (hstops ts') h.2
      rw [ih hts.2 hts'.2 hrest]

end LogToken

end BotScript
