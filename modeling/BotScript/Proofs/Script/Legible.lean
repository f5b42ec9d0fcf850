import BotScript.Proofs.Number.Layout
import BotScript.Proofs.Text.Delimited
import BotScript.Script.Command

/-!
# Expressions are told by their texts

Keys, names of variables and parts of paths stand in a text as they are. If they are plain, in that
they do not look like something else, an expression can be told from its text and from what follows
it, up to two ways of saying the same: a negative number has the text of a negation, and a selector
of everyone does not show its list of clients.

## Main definitions

* `Selector.canonical`, `Expr.canonical`: the one of several values with the same text
  that stands for all.
* `Expr.Plain`: the names in an expression do not look like something else.
* `Opening.ofText`: the form of expression that a text begins with.

## Main results

* `Selector.render_cancel`: selectors are told from what follows.
* `Expr.ofText_render`: the form of an expression can be told from its text.
* `Expr.render_cancel`: expressions are told from what follows.
-/

namespace BotScript

open Text (IsLine IsWord IsPath Ends Stops isBreak isMark)

variable {r r' : List Char} {last : Bool}

/-! ### Numbers -/

theorem isMark_digit {c : Char} (h : c.isDigit = true) : isMark c = false := by
  by_contra hmark
  simp only [isMark, isBreak, Bool.not_eq_false, Bool.or_eq_true, decide_eq_true_eq, List.mem_cons,
    List.not_mem_nil, or_false] at hmark
  rcases hmark with (rfl | rfl | rfl) | rfl | rfl | rfl <;> exact absurd h (by decide)

namespace Number

theorem digits_injective : Function.Injective (Nat.toDigits 10) := by
  intro n m h
  rw [← Nat.ofDigitChars_ten_toDigits (n := n), h, Nat.ofDigitChars_ten_toDigits]

theorem isWord_toString (n : Nat) : IsWord (toString n) := by
  intro c hc
  rw [toList_toString] at hc
  exact isMark_digit (isDigit_of_mem_digits hc)

theorem toString_injective : Function.Injective (toString : Nat → String) := by
  intro n m h
  apply digits_injective
  rw [← toList_toString, h, toList_toString]

theorem Parts.isWord_magnitude (p : Parts) : IsWord p.magnitude := by
  rcases p.magnitude_cases with h | h | ⟨c, rest, h, hc, hrest⟩
  · rw [h]
    decide
  · rw [h]
    decide
  · intro d hd
    rw [h, List.mem_cons] at hd
    rcases hd with rfl | hd
    · exact isMark_digit hc
    · rcases hrest d hd with hdigit | rfl
      · exact isMark_digit hdigit
      · decide

theorem text_of_not_negative {x : Float} (h : isNegative x = false) :
    text x = (Parts.ofFloat x).magnitude := by
  rw [text_eq, h]
  simp

theorem isWord_text {x : Float} (h : isNegative x = false) : IsWord (text x) := by
  rw [text_of_not_negative h]
  exact Parts.isWord_magnitude _

theorem isLine_text (x : Float) : IsLine (text x) := by
  rw [text_eq, Text.isLine_append]
  refine ⟨?_, (Parts.isWord_magnitude _).isLine⟩
  split_ifs <;> decide

end Number

/-! ### Selectors -/

theorem PlayerSet.eq_of_nums {s t : PlayerSet} (h : s.nums = t.nums) : s = t := by
  cases s
  cases t
  cases h
  rfl

namespace Selector

variable {who who' : Selector}

/-- The selector that stands for all with the same text. -/
def canonical (who : Selector) : Selector := if who.everyone then all else who

theorem canonical_of_everyone (h : who.everyone = true) : who.canonical = all := if_pos h

theorem canonical_of_listed (h : who.everyone = false) : who.canonical = who := by
  simp [canonical, h]

theorem render_of_everyone (h : who.everyone = true) : who.render = "mass" := if_pos h

theorem render_canonical (who : Selector) : who.canonical.render = who.render := by
  cases h : who.everyone with
  | true => rw [canonical_of_everyone h, render_of_everyone h, render_of_everyone rfl]
  | false => rw [canonical_of_listed h]

theorem canonical_canonical (who : Selector) : who.canonical.canonical = who.canonical := by
  cases h : who.everyone with
  | true => rw [canonical_of_everyone h, canonical_of_everyone rfl]
  | false => rw [canonical_of_listed h, canonical_of_listed h]

/-- The names of the listed clients. -/
def names (who : Selector) :
    List (List Char) := who.players.nums.map fun n => 'p' :: Nat.toDigits 10 n.toNat

theorem toList_render (h : who.everyone = false) : who.render.toList =
    (if who.inverted then "except".toList else []) ++ '[' ::
    ([','].intercalate who.names ++ [']']) := by
  have hname (n : UInt64) : ("p" ++ toString n.toNat).toList = 'p' :: Nat.toDigits 10 n.toNat := by
    rw [String.toList_append, Number.toList_toString]
    rfl
  unfold render
  rw [h, if_neg (by decide), names]
  simp only [String.toList_append, String.toList_intercalate, List.map_map, Function.comp_def,
    hname]
  cases who.inverted <;> simp

/-- What a name of a client consists of. -/
theorem mem_names {name : List Char} {c : Char} (h : name ∈ who.names) (hc : c ∈ name) :
    c = 'p' ∨ c.isDigit = true := by
  obtain ⟨n, -, rfl⟩ := List.mem_map.1 h
  rcases List.mem_cons.1 hc with hc | hc
  · exact .inl hc
  · exact .inr (Number.isDigit_of_mem_digits hc)

theorem comma_not_mem_names {name : List Char} (h : name ∈ who.names) : ',' ∉ name := by
  intro hc
  rcases mem_names h hc with hc | hc <;> exact absurd hc (by decide)

theorem names_ne (who : Selector) : who.names ≠ [[]] := by
  intro h
  have hmem : [] ∈ who.names := h ▸ List.mem_singleton_self _
  obtain ⟨n, -, hn⟩ := List.mem_map.1 hmem
  cases hn

/-- Selectors with the same names list the same clients. -/
theorem players_eq_of_names (h : who.names = who'.names) : who.players = who'.players := by
  have hname : Function.Injective fun n : UInt64 => 'p' :: Nat.toDigits 10 n.toNat := by
    intro n m heq
    exact UInt64.toNat_inj.1 (Number.digits_injective (List.cons.inj heq).2)
  exact PlayerSet.eq_of_nums ((List.map_inj_right hname).1 h)

/-- The text of a selector has no blanks and no line feeds. -/
theorem mem_render {c : Char} (h : c ∈ who.render.toList) : c ≠ ' ' ∧ c ≠ '\n' := by
  cases hwho : who.everyone with
  | true =>
    rw [render_of_everyone hwho] at h
    constructor <;> rintro rfl <;> exact absurd h (by decide)
  | false =>
    rw [toList_render hwho, List.mem_append, List.mem_cons, List.mem_append,
      List.mem_singleton] at h
    rcases h with h | rfl | h | rfl
    · split_ifs at h
      · constructor <;> rintro rfl <;> exact absurd h (by decide)
      · cases h
    · decide
    · rcases Text.mem_intercalate h with rfl | ⟨name, hname, hc⟩
      · decide
      · rcases mem_names hname hc with rfl | hdigit
        · decide
        · constructor <;> rintro rfl <;> exact absurd hdigit (by decide)
    · decide

theorem isLine_render (who : Selector) : IsLine who.render := fun h => (mem_render h).2 rfl

/-- The form of a canonical selector and its list can be read off its text. -/
theorem eq_of_render (hwho : who.canonical = who) (hwho' : who'.canonical = who')
    (h : who.render = who'.render) : who = who' := by
  cases hall : who.everyone with
  | true =>
    cases hall' : who'.everyone with
    | true => rw [← hwho, ← hwho', canonical_of_everyone hall, canonical_of_everyone hall']
    | false =>
      rw [render_of_everyone hall, ← String.toList_inj, toList_render hall'] at h
      cases hinv : who'.inverted <;> simp [hinv] at h
  | false =>
    cases hall' : who'.everyone with
    | true =>
      rw [render_of_everyone hall', ← String.toList_inj, toList_render hall] at h
      cases hinv : who.inverted <;> simp [hinv] at h
    | false =>
      rw [← String.toList_inj, toList_render hall, toList_render hall'] at h
      -- What stands before the list says whether it is inverted.
      have hlist : who.inverted = who'.inverted ∧
          [','].intercalate who.names = [','].intercalate who'.names := by
        cases hinv : who.inverted <;> cases hinv' :
          who'.inverted <;> simp [hinv, hinv'] at h ⊢ <;> exact h
      have hnames := Text.intercalate_inj (fun _ => comma_not_mem_names) (fun _ =>
        comma_not_mem_names)
        who.names_ne who'.names_ne hlist.2
      have hplayers := players_eq_of_names hnames
      calc
        who = ⟨who.everyone, who.inverted, who.players⟩ := rfl
        _ = ⟨who'.everyone, who'.inverted, who'.players⟩ := by rw [hall, hall', hlist.1, hplayers]
        _ = who' := rfl

/-- A selector is told from what follows. -/
theorem render_cancel (hwho : who.canonical = who) (hwho' : who'.canonical = who')
    (h : who.render.toList ++ ' ' :: r = who'.render.toList ++ ' ' :: r') :
    who = who' ∧ r = r' := by
  have hblank {s : Selector} (c : Char) (hc : c ∈ s.render.toList) : (c == ' ') = false :=
    beq_eq_false_iff_ne.2 (mem_render hc).1
  obtain ⟨htext, hrest⟩ :=
    Text.append_cancel hblank hblank (Text.stops_cons.2 rfl) (Text.stops_cons.2 rfl) h
  exact ⟨eq_of_render hwho hwho' (String.toList_inj.1 htext), (List.cons.inj hrest).2⟩

end Selector

/-! ### Predicates -/

namespace Predicate

variable {p q : Predicate}

/-- The path in a predicate, if there is one, can be read off its text. -/
def Plain (last : Bool) : Predicate → Prop
  | windowVisible path | inZone path => IsPath last path
  | _ => True

instance : (p : Predicate) → Decidable (p.Plain last)
  | windowVisible path | inZone path => inferInstanceAs (Decidable (IsPath last path))
  | sameZone .. | inBattle | inDialog => inferInstanceAs (Decidable True)

theorem isLine_render (h : p.Plain last) : IsLine p.render := by
  cases p with
  | windowVisible path | inZone path => exact Text.isLine_append.2 ⟨by decide, IsPath.isLine h⟩
  | sameZone a b =>
    simp only [render, Text.isLine_append]
    exact ⟨⟨⟨by decide, (Number.isWord_toString _).isLine⟩, by decide⟩,
      (Number.isWord_toString _).isLine⟩
  | inBattle | inDialog => decide

/-- A predicate is told from what follows. -/
theorem render_cancel (hp : p.Plain last) (hq : q.Plain last) (hr : Ends last r)
    (hr' : Ends last r') (h : p.render.toList ++ r = q.render.toList ++ r') : p = q ∧ r = r' := by
  cases p with
  | windowVisible path =>
    cases q with
    | windowVisible path' =>
      simp only [render, String.toList_append, List.append_assoc] at h
      obtain ⟨rfl, hrest⟩ := Text.joinPath_cancel hp hq hr hr' (List.append_cancel_left h)
      exact ⟨rfl, hrest⟩
    | _ => simp [render] at h
  | inZone path =>
    cases q with
    | inZone path' =>
      simp only [render, String.toList_append, List.append_assoc] at h
      obtain ⟨rfl, hrest⟩ := Text.joinPath_cancel hp hq hr hr' (List.append_cancel_left h)
      exact ⟨rfl, hrest⟩
    | _ => simp [render] at h
  | sameZone a b =>
    cases q with
    | sameZone a' b' =>
      have hoperands : (toString a.toNat).toList ++ ' ' :: ((toString b.toNat).toList ++ r) =
          (toString a'.toNat).toList ++ ' ' :: ((toString b'.toNat).toList ++ r') := by
        simpa [render] using h
      obtain ⟨ha, hrest⟩ := Text.word_cancel (Number.isWord_toString _) (Number.isWord_toString _)
        (Text.stops_cons.2 rfl) (Text.stops_cons.2 rfl) hoperands
      obtain ⟨hb, hrest⟩ := Text.word_cancel (Number.isWord_toString _) (Number.isWord_toString _)
        hr.isMark hr'.isMark (List.cons.inj hrest).2
      rw [UInt64.toNat_inj.1 (Number.toString_injective ha),
        UInt64.toNat_inj.1 (Number.toString_injective hb)]
      exact ⟨rfl, hrest⟩
    | _ => simp [render] at h
  | inBattle =>
    cases q with
    | inBattle => exact ⟨rfl, List.append_cancel_left h⟩
    | _ => simp [render] at h
  | inDialog =>
    cases q with
    | inDialog => exact ⟨rfl, List.append_cancel_left h⟩
    | _ => simp [render] at h

end Predicate

/-! ### Forms of expressions -/

/-- The forms of expressions, and of destinations, as their texts show them. -/
inductive Opening where
  | number
  | string
  | key
  | position
  | negate
  | not
  | ask
  | var
  | entity
  | entityLike
  | mob
  | quest
  | friendIcon
  | friendName
  deriving DecidableEq

namespace Opening

/-- The words that texts begin with, and the forms that they show. -/
def words : List (String × Opening) :=
  [("NaN", number), ("inf", number), ("xyz", position), ("not", not), ("mass", ask),
    ("except", ask),
    ("entity", entity), ("entity_vague", entityLike), ("mob", mob), ("quest", quest),
    ("friend_icon", friendIcon), ("friend_name", friendName)]

/-- The form that the first character of a text shows, if it is not the first of a word. -/
def ofHead? (c : Char) : Option Opening :=
  if c = '"' then some string
  else if c = '-' then some negate
  else if c = '$' then some var
  else if c = '[' then some ask
  else if c.isDigit then some number
  else none

/-- The form that the first word of a text shows. -/
def ofWord (cs : List Char) : Opening :=
  ((words.lookup (String.ofList (cs.takeWhile fun c => !isMark c)))).getD key

/-- The form that a text shows by its first character or its first word. -/
def ofText (cs : List Char) : Opening := (cs.head?.bind ofHead?).getD (ofWord cs)

theorem ofText_of_head {c : Char} {form : Opening} (h : ofHead? c = some form) :
    ofText (c :: r) = form := by
  simp [ofText, h]

/-- The form of a text that begins with a word. -/
theorem ofText_word {s : String} (hs : IsWord s) (hr : Stops isMark r)
    (hhead : (s.toList ++ r).head?.bind ofHead? = none) :
    ofText (s.toList ++ r) = (words.lookup s).getD key := by
  rw [ofText, hhead, Option.getD_none, ofWord, Text.takeWhile_append_stops isMark hs hr,
    String.ofList_toList]

/-- The reserved words are words, begin like words and stand in the list once. -/
theorem reserved (w : String × Opening) (h : w ∈ words) :
    IsWord w.1 ∧ w.1.toList.head?.map ofHead? = some none ∧ words.lookup w.1 = some w.2 := by
  revert w
  decide +kernel

/-- The form of a text that begins with a reserved word. -/
theorem ofText_reserved {s : String} {form : Opening} (h : (s, form) ∈ words)
    (hr : Stops isMark r) :
    ofText (s.toList ++ r) = form := by
  obtain ⟨hword, hhead, hlookup⟩ := reserved _ h
  obtain ⟨c, hc, hnone⟩ := Option.map_eq_some_iff.1 hhead
  rw [ofText_word hword hr, hlookup, Option.getD_some]
  rw [List.head?_append, hc, Option.some_or, Option.bind_some, hnone]

end Opening

/-! ### Expressions -/

namespace Expr

/-- A key that does not look like another expression. -/
def IsKey (k : String) : Prop :=
  IsWord k ∧ k ∉ Opening.words.map Prod.fst ∧ ∀ c ∈ k.toList.head?, c ∉ ['"', '-', '$'] ∧
    c.isDigit = false

instance {k : String} : Decidable (IsKey k) :=
  @instDecidableAnd _ _ _ (@instDecidableAnd _ _ _ (Option.decidableForallMem _))

/-- The names in an expression, at the end of a line or before it, do not look like
something else. -/
def Plain : Bool → Expr → Prop
  | _, number _ | _, string _ => True
  | _, key k => IsKey k
  | _, position x y z => x.Plain false ∧ y.Plain false ∧ z.Plain false
  | last, unary _ e => e.Plain last
  | last, ask _ p => p.Plain last
  | _, var name => IsWord name

instance decidablePlain : (last : Bool) → (e : Expr) → Decidable (e.Plain last)
  | _, number _ | _, string _ => inferInstanceAs (Decidable True)
  | _, key k => inferInstanceAs (Decidable (IsKey k))
  | _, position x y z =>
    have := decidablePlain false x
    have := decidablePlain false y
    have := decidablePlain false z
    inferInstanceAs (Decidable (x.Plain false ∧ y.Plain false ∧ z.Plain false))
  | last, unary _ e => decidablePlain last e
  | last, ask _ p => inferInstanceAs (Decidable (p.Plain last))
  | _, var name => inferInstanceAs (Decidable (IsWord name))

/-- The expression that stands for all with the same text: numbers have no sign of their own, and
selectors are canonical. -/
def canonical : Expr → Expr
  | number x => if Number.isNegative x then unary .negate (number (-x)) else number x
  | position x y z => position x.canonical y.canonical z.canonical
  | unary op e => unary op e.canonical
  | ask who p => ask who.canonical p
  | string s => string s
  | key k => key k
  | var name => var name

variable {e e' : Expr}

theorem canonical_number_of_negative {x : Float} (h : Number.isNegative x = true) :
    (number x).canonical = unary .negate (number (-x)) := if_pos h

theorem canonical_number {x : Float} (h : Number.isNegative x = false) :
    (number x).canonical = number x := by
  simp [canonical, h]

theorem render_canonical (e : Expr) : e.canonical.render = e.render := by
  induction e with
  | number x =>
    cases h : Number.isNegative x with
    | true => rw [canonical_number_of_negative h, render, render, render, Number.text_of_negative h]
    | false => rw [canonical_number h]
  | position x y z ihx ihy ihz => simp only [canonical, render, ihx, ihy, ihz]
  | unary op e ih => cases op <;> simp only [canonical, render, ih]
  | ask who p => simp only [canonical, render, Selector.render_canonical]
  | string | key | var => rfl

theorem canonical_canonical (e : Expr) : e.canonical.canonical = e.canonical := by
  induction e with
  | number x =>
    cases h : Number.isNegative x with
    | true =>
      rw [canonical_number_of_negative h, canonical, canonical_number (Number.isNegative_neg h)]
    | false => rw [canonical_number h, canonical_number h]
  | position x y z ihx ihy ihz => simp only [canonical, ihx, ihy, ihz]
  | unary op e ih => simp only [canonical, ih]
  | ask who p => simp only [canonical, Selector.canonical_canonical]
  | string | key | var => rfl

theorem Plain.canonical (h : e.Plain last) : e.canonical.Plain last := by
  induction e generalizing last with
  | number x => unfold Expr.canonical; split_ifs <;> trivial
  | position x y z ihx ihy ihz => exact ⟨ihx h.1, ihy h.2.1, ihz h.2.2⟩
  | unary op e ih => exact ih h
  | ask who p => exact h
  | string | key | var => exact h

/-- The text of a plain expression stays on its line. -/
theorem isLine_render (h : e.Plain last) : IsLine e.render := by
  induction e generalizing last with
  | number x => exact Number.isLine_text x
  | string s => exact Text.isLine_quoted s
  | key k => exact IsWord.isLine h.1
  | position x y z ihx ihy ihz =>
    simp only [render, Text.isLine_append]
    exact ⟨⟨⟨⟨⟨⟨by decide, ihx h.1⟩, by decide⟩, ihy h.2.1⟩, by decide⟩, ihz h.2.2⟩, by decide⟩
  | unary op e ih => cases op <;> exact Text.isLine_append.2 ⟨by decide, ih h⟩
  | ask who p =>
    simp only [render, Text.isLine_append]
    exact ⟨⟨who.isLine_render, by decide⟩, Predicate.isLine_render h⟩
  | var name => exact Text.isLine_append.2 ⟨by decide, IsWord.isLine h⟩

/-- The form of an expression. -/
def form : Expr → Opening
  | number _ => .number
  | string _ => .string
  | key _ => .key
  | position .. => .position
  | unary .negate _ => .negate
  | unary .not _ => .not
  | ask .. => .ask
  | var _ => .var

theorem ofText_number {x : Float} (h : Number.isNegative x = false) (hr : Stops isMark r) :
    Opening.ofText ((Number.text x).toList ++ r) = .number := by
  rw [Number.text_of_not_negative h]
  rcases (Number.Parts.ofFloat x).magnitude_cases with htext | htext | ⟨c, rest, htext, hc, -⟩
  · rw [htext]
    exact Opening.ofText_reserved (by simp [Opening.words]) hr
  · rw [htext]
    exact Opening.ofText_reserved (by simp [Opening.words]) hr
  · rw [htext]
    apply Opening.ofText_of_head
    -- A digit is none of the characters that show other forms.
    have hother : c ≠ '"' ∧ c ≠ '-' ∧ c ≠ '$' ∧ c ≠ '[' := by
      refine ⟨?_, ?_, ?_, ?_⟩ <;> rintro rfl <;> exact absurd hc (by decide)
    simp [Opening.ofHead?, hother, hc]

theorem ofText_key {k : String} (h : IsKey k) (hr : Ends last r) :
    Opening.ofText (k.toList ++ r) = .key := by
  obtain ⟨hword, hreserved, hhead⟩ := h
  have hlookup : Opening.words.lookup k = none := by
    rw [List.lookup_eq_none_iff]
    intro entry hentry
    rw [bne_iff_ne]
    rintro rfl
    exact hreserved (List.mem_map_of_mem hentry)
  rw [Opening.ofText_word hword hr.isMark, hlookup, Option.getD_none]
  -- The first character is one of the key, or a break.
  cases hk : k.toList with
  | nil =>
    cases r with
    | nil => rfl
    | cons c r =>
      have hbreak := hr.isBreak c rfl
      simp only [isBreak, decide_eq_true_eq, List.mem_cons, List.not_mem_nil, or_false] at hbreak
      rcases hbreak with rfl | rfl | rfl <;> rfl
  | cons c rest =>
    obtain ⟨hmarks, hdigit⟩ := hhead c (by rw [hk]; rfl)
    have hbracket : c ≠ '[' := by
      rintro rfl
      exact absurd (hword '[' (hk ▸ List.mem_cons_self)) (by decide)
    simp only [List.mem_cons, List.not_mem_nil, or_false, not_or] at hmarks
    simp [Opening.ofHead?, hmarks, hbracket, hdigit]

theorem ofText_ask (who : Selector) : Opening.ofText (who.render.toList ++ ' ' :: r) = .ask := by
  cases hall : who.everyone with
  | true =>
    rw [Selector.render_of_everyone hall]
    exact Opening.ofText_reserved (by simp [Opening.words]) (Text.stops_cons.2 rfl)
  | false =>
    rw [Selector.toList_render hall]
    cases who.inverted with
    | true =>
      rw [if_pos rfl, List.append_assoc]
      exact Opening.ofText_reserved (by simp [Opening.words]) (Text.stops_cons.2 rfl)
    | false => exact Opening.ofText_of_head rfl

/-- An expression that is canonical and plain. -/
structure Legible (last : Bool) (e : Expr) : Prop where
  canonical : e.canonical = e
  plain : e.Plain last

theorem Legible.position {x y z : Expr} (h : (position x y z).Legible last) :
    x.Legible false ∧ y.Legible false ∧ z.Legible false := by
  obtain ⟨hcanonical, hx, hy, hz⟩ := h
  rw [Expr.canonical, position.injEq] at hcanonical
  exact ⟨⟨hcanonical.1, hx⟩, ⟨hcanonical.2.1, hy⟩, ⟨hcanonical.2.2, hz⟩⟩

theorem Legible.operand {op : UnaryOp} (h : (unary op e).Legible last) : e.Legible last := by
  obtain ⟨hcanonical, hplain⟩ := h
  rw [Expr.canonical, unary.injEq] at hcanonical
  exact ⟨hcanonical.2, hplain⟩

theorem Legible.selector {who : Selector} {p : Predicate} (h : (ask who p).Legible last) :
    who.canonical = who := by
  have hcanonical := h.canonical
  rw [Expr.canonical, ask.injEq] at hcanonical
  exact hcanonical.1

theorem Legible.not_negative {x : Float} (h : (number x).Legible last) :
    Number.isNegative x = false := by
  by_contra hx
  have hcanonical := h.canonical
  rw [canonical_number_of_negative (Bool.eq_true_of_not_eq_false hx)] at hcanonical
  cases hcanonical

theorem toList_render_position (x y z : Expr) (r : List Char) :
    (position x y z).render.toList ++ r = "xyz(".toList ++ (x.render.toList ++
      ',' :: ' ' :: (y.render.toList ++ ',' :: ' ' :: (z.render.toList ++ ')' :: r))) := by
  simp [render]

/-- The form of an expression can be told from its text. -/
theorem ofText_render (h : e.Legible last) (hr : Ends last r) :
    Opening.ofText (e.render.toList ++ r) = e.form := by
  cases e with
  | number x => exact ofText_number h.not_negative hr.isMark
  | string s =>
    rw [render, Text.toList_quoted]
    exact Opening.ofText_of_head rfl
  | key k => exact ofText_key h.plain hr
  | position x y z =>
    have hword : "xyz(".toList = "xyz".toList ++ ['('] := by simp
    rw [toList_render_position, hword, List.append_assoc]
    exact Opening.ofText_reserved (by simp [Opening.words, form]) (Text.stops_cons.2 rfl)
  | unary op e =>
    cases op with
    | negate =>
      rw [render, String.toList_append]
      exact Opening.ofText_of_head rfl
    | not =>
      have hword : "not ".toList = "not".toList ++ [' '] := by simp
      rw [render, String.toList_append, hword, List.append_assoc, List.append_assoc]
      exact Opening.ofText_reserved (by simp [Opening.words, form]) (Text.stops_cons.2 rfl)
  | ask who p =>
    rw [render, String.toList_append, String.toList_append, List.append_assoc, List.append_assoc]
    exact ofText_ask who
  | var name =>
    rw [render, String.toList_append]
    exact Opening.ofText_of_head rfl

/-- Expressions with the same text have the same form. -/
theorem form_eq_of_render (he : e.Legible last) (he' : e'.Legible last) (hr : Ends last r)
    (hr' : Ends last r') (h : e.render.toList ++ r = e'.render.toList ++ r') :
    e.form = e'.form := by
  rw [← ofText_render he hr, h, ofText_render he' hr']

/-- An expression is told from what follows. -/
theorem render_cancel (he : e.Legible last) (he' : e'.Legible last) (hr : Ends last r)
    (hr' : Ends last r') (h : e.render.toList ++ r = e'.render.toList ++ r') : e = e' ∧ r = r' := by
  induction e generalizing e' last r r' with
  | number x =>
    have hform := form_eq_of_render he he' hr hr' h
    cases e' with
    | number x' =>
      obtain ⟨htext, hrest⟩ := Text.word_cancel (Number.isWord_text he.not_negative)
        (Number.isWord_text he'.not_negative) hr.isMark hr'.isMark h
      exact ⟨by rw [Number.text_injective htext], hrest⟩
    | unary op => cases op <;> cases hform
    | _ => cases hform
  | string s =>
    have hform := form_eq_of_render he he' hr hr' h
    cases e' with
    | string s' =>
      obtain ⟨rfl, hrest⟩ := Text.quoted_cancel h
      exact ⟨rfl, hrest⟩
    | unary op => cases op <;> cases hform
    | _ => cases hform
  | key k =>
    have hform := form_eq_of_render he he' hr hr' h
    cases e' with
    | key k' =>
      obtain ⟨rfl, hrest⟩ := Text.word_cancel he.plain.1 he'.plain.1 hr.isMark hr'.isMark h
      exact ⟨rfl, hrest⟩
    | unary op => cases op <;> cases hform
    | _ => cases hform
  | position x y z ihx ihy ihz =>
    have hform := form_eq_of_render he he' hr hr' h
    cases e' with
    | position x' y' z' =>
      obtain ⟨hx, hy, hz⟩ := he.position
      obtain ⟨hx', hy', hz'⟩ := he'.position
      have hbreak {c : Char} {s : List Char} (hc : isBreak c = true) : Ends false (c :: s) :=
        Text.stops_cons.2 hc
      rw [toList_render_position, toList_render_position, List.append_cancel_left_eq] at h
      obtain ⟨rfl, hy_eq⟩ := ihx hx hx' (hbreak rfl) (hbreak rfl) h
      simp only [List.cons.injEq, true_and] at hy_eq
      obtain ⟨rfl, hz_eq⟩ := ihy hy hy' (hbreak rfl) (hbreak rfl) hy_eq
      simp only [List.cons.injEq, true_and] at hz_eq
      obtain ⟨rfl, hrest⟩ := ihz hz hz' (hbreak rfl) (hbreak rfl) hz_eq
      exact ⟨rfl, (List.cons.inj hrest).2⟩
    | unary op => cases op <;> cases hform
    | _ => cases hform
  | unary op e ih =>
    have hform := form_eq_of_render he he' hr hr' h
    cases e' with
    | unary op' e' =>
      have hop : op = op' := by
        cases op <;> cases op' <;> first | rfl | cases hform
      subst hop
      have hoperand : e.render.toList ++ r = e'.render.toList ++ r' := by
        cases op <;> simpa [render] using h
      obtain ⟨rfl, hrest⟩ := ih he.operand he'.operand hr hr' hoperand
      exact ⟨rfl, hrest⟩
    | _ => cases op <;> cases hform
  | ask who p =>
    have hform := form_eq_of_render he he' hr hr' h
    cases e' with
    | ask who' p' =>
      simp only [render, String.toList_append, List.append_assoc] at h
      obtain ⟨rfl, hpredicate⟩ := Selector.render_cancel he.selector he'.selector h
      obtain ⟨rfl, hrest⟩ := Predicate.render_cancel he.plain he'.plain hr hr' hpredicate
      exact ⟨rfl, hrest⟩
    | unary op => cases op <;> cases hform
    | _ => cases hform
  | var name =>
    have hform := form_eq_of_render he he' hr hr' h
    cases e' with
    | var name' =>
      obtain ⟨rfl, hrest⟩ :=
        Text.word_cancel he.plain he'.plain hr.isMark hr'.isMark (by simpa [render] using h)
      exact ⟨rfl, hrest⟩
    | unary op => cases op <;> cases hform
    | _ => cases hform

/-- Legible expressions with the same text are the same. -/
theorem eq_of_render (he : e.Legible true) (he' : e'.Legible true) (h : e.render = e'.render) :
    e = e' := by
  have htext : e.render.toList ++ [] = e'.render.toList ++ [] := by rw [h]
  exact (render_cancel he he' rfl rfl htext).1

end Expr

end BotScript
