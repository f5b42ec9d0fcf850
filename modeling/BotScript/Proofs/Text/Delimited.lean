import Mathlib.Data.List.TakeWhile
import BotScript.Number.Digits
import BotScript.Text.Quoted

/-!
# Where a piece of a line ends

A line is made of pieces: words, quoted texts and paths. A piece can be told from what follows it if
none of its characters can begin what follows. A quoted text ends at its second quote, whatever
follows.

## Main definitions

* `IsLine`: a text without line feeds.
* `IsWord`: a text without blanks, commas, brackets and line feeds.
* `Ends`: what may follow a piece, at the end of a line or before it.
* `IsPath`: a path whose parts can be read off its text.
* `unescape`: the character that an escape at the beginning of a text stands for, and the rest.

## Main results

* `append_cancel`: a piece is told from what follows.
* `quoted_cancel`: a quoted text is told from whatever follows.
* `joinPath_cancel`: a path is told from what follows, and its parts from each other.
-/

namespace BotScript.Text

variable {s t : String} {u v r r' : List Char} {last : Bool}

/-! ### Pieces and what follows them -/

/-- What follows is nothing, or begins with a character of a kind. -/
def Stops (stop : Char → Bool) (r : List Char) : Prop := ∀ c ∈ r.head?, stop c = true

theorem stops_nil {stop : Char → Bool} : Stops stop [] := by
  rintro c ⟨⟩

theorem stops_cons {stop : Char → Bool} {c : Char} : Stops stop (c :: r) ↔ stop c = true := by
  simp [Stops]

/-- A piece without the characters that begin what follows is all there is before one of them. -/
theorem takeWhile_append_stops (stop : Char → Bool) (hu : ∀ c ∈ u, stop c = false)
    (hr : Stops stop r) :
    (u ++ r).takeWhile (fun c => !stop c) = u := by
  rw [List.takeWhile_append_of_pos (fun c hc => by rw [hu c hc]; rfl)]
  cases r with
  | nil => simp
  | cons c r => simp [stops_cons.1 hr]

/-- A piece is told from what follows. -/
theorem append_cancel {stop : Char → Bool} (hu : ∀ c ∈ u, stop c = false)
    (hv : ∀ c ∈ v, stop c = false)
    (hr : Stops stop r) (hr' : Stops stop r') (h : u ++ r = v ++ r') : u = v ∧ r = r' := by
  have hpiece : u = v := by
    rw [← takeWhile_append_stops stop hu hr, h, takeWhile_append_stops stop hv hr']
  subst hpiece
  exact ⟨rfl, List.append_cancel_left h⟩

/-- The characters that may follow a piece within a line. -/
def isBreak (c : Char) : Bool := c ∈ [' ', ',', ')']

/-- The characters that no word has. -/
def isMark (c : Char) : Bool := isBreak c || c ∈ ['(', '[', '\n']

/-- A text without line feeds. -/
def IsLine (s : String) : Prop := '\n' ∉ s.toList

/-- A text without blanks, commas, brackets and line feeds. -/
def IsWord (s : String) : Prop := ∀ c ∈ s.toList, isMark c = false

instance : Decidable (IsLine s) := inferInstanceAs (Decidable ('\n' ∉ s.toList))

instance : Decidable (IsWord s) := List.decidableBAll (isMark · = false) s.toList

theorem isLine_append : IsLine (s ++ t) ↔ IsLine s ∧ IsLine t := by
  simp [IsLine]

theorem IsWord.isLine (h : IsWord s) : IsLine s := fun hfeed => absurd (h _ hfeed) (by decide)

/-- What may follow a piece: nothing at the end of a line, and otherwise a break. -/
def Ends : Bool → List Char → Prop
  | true, r => r = []
  | false, r => Stops isBreak r

theorem Ends.isBreak (h : Ends last r) : Stops isBreak r := by
  cases last with
  | true =>
    cases h
    exact stops_nil
  | false => exact h

theorem Ends.isMark (h : Ends last r) : Stops isMark r := by
  intro c hc
  rw [Text.isMark, h.isBreak c hc, Bool.true_or]

/-- A word is told from what follows. -/
theorem word_cancel (hs : IsWord s) (ht : IsWord t) (hr : Stops isMark r) (hr' : Stops isMark r')
    (h : s.toList ++ r = t.toList ++ r') : s = t ∧ r = r' := by
  obtain ⟨hpiece, hrest⟩ := append_cancel hs ht hr hr' h
  exact ⟨String.toList_inj.1 hpiece, hrest⟩

/-! ### Quoted texts -/

/-- The number that hexadecimal digits stand for. -/
def hexNumber (cs : List Char) : Nat := cs.foldl (fun n c => 16 * n + (Number.hexValue? c).getD 0) 0

theorem hexValue_digitChar : ∀ n < 16, Number.hexValue? n.digitChar = some n := by decide

theorem hexNumber_toDigits (n : Nat) : hexNumber (Nat.toDigits 16 n) = n := by
  induction n using Nat.strongRecOn with
  | _ n ih =>
    rw [Nat.toDigits_eq_if (by decide)]
    split_ifs with hn
    · simp [hexNumber, hexValue_digitChar n hn]
    · have hrest := ih (n / 16) (by omega)
      rw [hexNumber] at hrest ⊢
      rw [List.foldl_append, hrest, List.foldl_cons,
        hexValue_digitChar _ (Nat.mod_lt n (by decide))]
      exact Nat.div_add_mod n 16

theorem hexDigit_of_mem {n : Nat} {c : Char} (h : c ∈ Nat.toDigits 16 n) :
    ∃ d < 16, c = Nat.digitChar d := by
  induction n using Nat.strongRecOn with
  | _ n ih =>
    rw [Nat.toDigits_eq_if (by decide)] at h
    split_ifs at h with hn
    · exact ⟨n, hn, List.mem_singleton.1 h⟩
    · rcases List.mem_append.1 h with h | h
      · exact ih (n / 16) (by omega) h
      · exact ⟨n % 16, Nat.mod_lt n (by decide), List.mem_singleton.1 h⟩

theorem not_brace_of_mem {n : Nat} {c : Char} (h : c ∈ Nat.toDigits 16 n) : (c == '}') = false := by
  have hbrace : ∀ d < 16, (Nat.digitChar d == '}') = false := by decide
  obtain ⟨d, hd, rfl⟩ := hexDigit_of_mem h
  exact hbrace d hd

/-- The character that stands at the beginning of a text, escaped or not, and the rest. -/
def unescape : List Char → Option (Char × List Char)
  | '\\' :: 'u' :: rest =>
    some (Char.ofNat (hexNumber (rest.tail.takeWhile (fun c => !(c == '}')))),
      (rest.tail.dropWhile (fun c => !(c == '}'))).tail)
  | '\\' :: c :: rest =>
    some (if c = '0' then '\x00' else if c = 't' then '\t' else if c = 'n' then '\n'
      else if c = 'r' then '\r' else c, rest)
  | c :: rest => some (c, rest)
  | [] => none

/-- An escaped character is read back, whatever follows. -/
theorem unescape_escaped (c : Char) (r : List Char) :
    unescape ((escaped c).toList ++ r) = some (c, r) := by
  unfold escaped
  split_ifs with hquote hslash hzero htab hfeed hreturn hhidden
  · rw [hquote]; rfl
  · rw [hslash]; rfl
  · rw [hzero]; rfl
  · rw [htab]; rfl
  · rw [hfeed]; rfl
  · rw [hreturn]; rfl
  · have hdigits : (Nat.toDigits 16 c.toNat ++ '}' :: r).takeWhile (fun c => !(c == '}')) =
        Nat.toDigits 16 c.toNat :=
      takeWhile_append_stops (· == '}') (fun c hc => not_brace_of_mem hc) (by simp [Stops])
    have hrest : (Nat.toDigits 16 c.toNat ++ '}' :: r).dropWhile (fun c => !(c == '}')) =
        '}' :: r := by
      rw [List.dropWhile_append_of_pos (fun c hc => by rw [not_brace_of_mem hc]; rfl)]
      simp
    simp [hex, unescape, hdigits, hrest, hexNumber_toDigits, Char.ofNat_toNat]
  · rw [String.toList_singleton, List.singleton_append, unescape]
    all_goals simp [hslash]

theorem escaped_ne_nil (c : Char) : (escaped c).toList ≠ [] := by
  intro hnil
  have h := unescape_escaped c []
  rw [hnil] at h
  cases h

/-- Between the quotes there is no bare quote. -/
theorem escaped_head (c : Char) : (escaped c).toList.head? ≠ some '"' := by
  unfold escaped
  split_ifs with hquote
  case neg => simpa using hquote
  all_goals simp

theorem toList_quoted (s : String) :
    (quoted s).toList = '"' :: (s.toList.flatMap (fun c => (escaped c).toList) ++ ['"']) := by
  simp [quoted, String.toList_join, List.flatMap_map]

/-- Escaped characters are told from the quote after them and from what follows. -/
theorem escapes_cancel (h : u.flatMap (fun c => (escaped c).toList) ++ '"' :: r =
    v.flatMap (fun c => (escaped c).toList) ++ '"' :: r') : u = v ∧ r = r' := by
  -- A bare quote is not the beginning of an escaped character.
  have hquote (c : Char) (rest w : List Char) : '"' :: rest ≠ (escaped c).toList ++ w := by
    intro heq
    obtain ⟨d, ds, hd⟩ := List.exists_cons_of_ne_nil (escaped_ne_nil c)
    rw [hd, List.cons_append, List.cons.injEq] at heq
    apply escaped_head c
    rw [hd, List.head?_cons, heq.1]
  induction u generalizing v with
  | nil =>
    cases v with
    | nil => simpa using h
    | cons d v =>
      rw [List.flatMap_cons, List.append_assoc] at h
      exact absurd h (hquote d r _)
  | cons c u ih =>
    cases v with
    | nil =>
      rw [List.flatMap_cons, List.append_assoc] at h
      exact absurd h.symm (hquote c r' _)
    | cons d v =>
      rw [List.flatMap_cons, List.flatMap_cons, List.append_assoc, List.append_assoc] at h
      have hread := congrArg unescape h
      rw [unescape_escaped, unescape_escaped, Option.some.injEq, Prod.mk.injEq] at hread
      obtain ⟨rfl, hrest⟩ := ih hread.2
      exact ⟨by rw [hread.1], hrest⟩

/-- A quoted text is told from whatever follows. -/
theorem quoted_cancel (h : (quoted s).toList ++ r = (quoted t).toList ++ r') : s = t ∧ r = r' := by
  rw [toList_quoted, toList_quoted, List.cons_append, List.cons_append, List.cons.injEq,
    List.append_assoc, List.append_assoc] at h
  obtain ⟨htext, hrest⟩ := escapes_cancel h.2
  exact ⟨String.toList_inj.1 htext, hrest⟩

theorem quoted_injective : Function.Injective quoted := by
  intro s t h
  have htext : (quoted s).toList ++ [] = (quoted t).toList ++ [] := by rw [h]
  exact (quoted_cancel htext).1

theorem isLine_hex (n : Nat) : IsLine (hex n) := by
  have hdigit : ∀ d < 16, Nat.digitChar d ≠ '\n' := by decide
  rw [IsLine, hex, String.toList_ofList]
  intro hmem
  obtain ⟨d, hd, heq⟩ := hexDigit_of_mem hmem
  exact hdigit d hd heq.symm

theorem isLine_escaped (c : Char) : IsLine (escaped c) := by
  unfold escaped
  split_ifs with hquote hslash hzero htab hfeed hreturn hhidden
  iterate 6 decide
  · rw [isLine_append, isLine_append]
    exact ⟨⟨by decide, isLine_hex _⟩, by decide⟩
  · simpa [IsLine, eq_comm] using hfeed

/-- A quoted text stays on its line. -/
theorem isLine_quoted (s : String) : IsLine (quoted s) := by
  rw [IsLine, toList_quoted]
  intro hmem
  simp only [List.mem_cons, List.mem_append, List.mem_flatMap, List.not_mem_nil, or_false] at hmem
  rcases hmem with hmem | ⟨c, -, hmem⟩ | hmem
  · exact absurd hmem (by decide)
  · exact isLine_escaped c hmem
  · exact absurd hmem (by decide)

/-! ### Lists with a separator -/

section Separated

variable {sep c : Char} {parts parts' : List (List Char)}

/-- The characters of a list are its separators and those of its parts. -/
theorem mem_intercalate (h : c ∈ [sep].intercalate parts) : c = sep ∨ ∃ part ∈ parts, c ∈ part := by
  induction parts with
  | nil => simp at h
  | cons part parts ih =>
    cases parts with
    | nil => exact .inr ⟨part, List.mem_cons_self, by simpa using h⟩
    | cons part' parts =>
      rw [List.intercalate_cons_cons, List.mem_append, List.mem_append, List.mem_singleton] at h
      rcases h with (h | h) | h
      · exact .inr ⟨part, List.mem_cons_self, h⟩
      · exact .inl h
      · rcases ih h with hsep | ⟨other, hother, hc⟩
        · exact .inl hsep
        · exact .inr ⟨other, List.mem_cons_of_mem part hother, hc⟩

/-- Only the list without parts and the list with one empty part have the empty text. -/
theorem eq_nil_of_intercalate (hne : parts ≠ [[]]) (h : [sep].intercalate parts = []) :
    parts = [] := by
  cases parts with
  | nil => rfl
  | cons part parts =>
    cases parts with
    | nil => exact absurd (by simpa using h) hne
    | cons part' parts => simp [List.intercalate_cons_cons] at h

/-- The parts of a list can be read off its text, if they are free of the separator. -/
theorem intercalate_inj (hfree : ∀ part ∈ parts, sep ∉ part) (hfree' : ∀ part ∈ parts', sep ∉ part)
    (hne : parts ≠ [[]]) (hne' : parts' ≠ [[]])
    (h : [sep].intercalate parts = [sep].intercalate parts') :
    parts = parts' := by
  by_cases hnil : parts = []
  · subst hnil
    exact (eq_nil_of_intercalate hne' h.symm).symm
  by_cases hnil' : parts' = []
  · subst hnil'
    exact eq_nil_of_intercalate hne h
  rw [← List.splitOn_intercalate sep hfree hnil, h, List.splitOn_intercalate sep hfree' hnil']

end Separated

/-! ### Paths -/

/-- A path whose parts can be read off its text, at the end of a line or before it. -/
def IsPath (last : Bool) (path : List String) : Prop :=
  path ≠ [""] ∧ ∀ part ∈ path, '/' ∉ part.toList ∧ if last then IsLine part else IsWord part

instance {path : List String} : Decidable (IsPath last path) :=
  inferInstanceAs (Decidable (_ ∧ ∀ part ∈ path, _ ∧ if last then IsLine part else IsWord part))

variable {path path' : List String}

theorem toList_joinPath (path : List String) :
    (joinPath path).toList = ['/'].intercalate (path.map String.toList) := String.toList_intercalate

/-- The characters of a path are slashes and those of its parts. -/
theorem mem_joinPath {c : Char} (h : c ∈ (joinPath path).toList) :
    c = '/' ∨ ∃ part ∈ path, c ∈ part.toList := by
  rw [toList_joinPath] at h
  simpa using mem_intercalate h

namespace IsPath

theorem isLine (h : IsPath last path) : IsLine (joinPath path) := by
  intro hfeed
  rcases mem_joinPath hfeed with hslash | ⟨part, hpart, hc⟩
  · exact absurd hslash (by decide)
  · have hplain := (h.2 part hpart).2
    cases last with
    | true => exact hplain hc
    | false => exact IsWord.isLine hplain hc

theorem isWord (h : IsPath false path) : IsWord (joinPath path) := by
  intro c hc
  rcases mem_joinPath hc with rfl | ⟨part, hpart, hc⟩
  · decide
  · exact (h.2 part hpart).2 c hc

theorem map_toList_ne (h : IsPath last path) : path.map String.toList ≠ [[]] := by
  intro heq
  apply h.1
  simpa using heq

/-- Paths with the same text are the same. -/
theorem eq (h : IsPath last path) (h' : IsPath last path') (heq : joinPath path = joinPath path') :
    path = path' := by
  rw [← String.toList_inj, toList_joinPath, toList_joinPath] at heq
  have hparts := intercalate_inj (by simpa using fun part hpart => (h.2 part hpart).1)
    (by simpa using fun part hpart => (h'.2 part hpart).1) h.map_toList_ne h'.map_toList_ne heq
  exact (List.map_inj_right fun _ _ => String.toList_inj.1).1 hparts

end IsPath

/-- A path is told from what follows, and its parts from each other. -/
theorem joinPath_cancel (h : IsPath last path) (h' : IsPath last path') (hr : Ends last r)
    (hr' : Ends last r') (heq : (joinPath path).toList ++ r = (joinPath path').toList ++ r') :
    path = path' ∧ r = r' := by
  cases last with
  | true =>
    cases hr
    cases hr'
    rw [List.append_nil, List.append_nil, String.toList_inj] at heq
    exact ⟨h.eq h' heq, rfl⟩
  | false =>
    obtain ⟨htext, hrest⟩ := word_cancel h.isWord h'.isWord hr.isMark hr'.isMark heq
    exact ⟨h.eq h' htext, hrest⟩

end BotScript.Text
