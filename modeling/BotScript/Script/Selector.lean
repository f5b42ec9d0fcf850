import BotScript.Json.Record

/-!
# Which clients a command is for

A selector names all clients, some of them, or all but some, by their number counted from zero.

## Main definitions

* `PlayerSet`: a finite set of client numbers, listed in increasing order.
* `Selector`: who is meant.
* `Selector.includes`: whether a client is meant.
* `Selector.pick`: the clients meant, out of a given number of them.
-/

namespace BotScript

/-- A finite set of client numbers, listed in increasing order. -/
structure PlayerSet where
  nums : List UInt64
  increasing : nums.Pairwise (· < ·) := by simp
  deriving DecidableEq

namespace PlayerSet

/-- Put a number in its place in an increasing list, unless it is there. -/
def place (n : UInt64) : List UInt64 → List UInt64
  | [] => [n]
  | m :: rest =>
    if n < m then n :: m :: rest
    else if n = m then m :: rest
    else m :: place n rest

theorem mem_place {n k : UInt64} {l : List UInt64} : k ∈ place n l ↔ k = n ∨ k ∈ l := by
  induction l with
  | nil => simp [place]
  | cons m rest ih =>
    unfold place
    split
    · simp
    · split
      · rename_i h; subst h; simp
      · simp [ih]; grind

theorem place_increasing {n : UInt64} {l : List UInt64} (h : l.Pairwise (· < ·)) :
    (place n l).Pairwise (· < ·) := by
  induction l with
  | nil => simp [place]
  | cons m rest ih =>
    obtain ⟨hm, hr⟩ := List.pairwise_cons.mp h
    unfold place
    split
    · rename_i hn
      refine List.pairwise_cons.mpr ⟨fun k hk => ?_, h⟩
      rcases List.mem_cons.mp hk with rfl | hk
      · exact hn
      · exact UInt64.lt_trans hn (hm k hk)
    · split
      · exact h
      · rename_i hn hne
        refine List.pairwise_cons.mpr ⟨fun k hk => ?_, ih hr⟩
        rcases mem_place.mp hk with rfl | hk
        · exact UInt64.lt_of_le_of_ne (UInt64.not_lt.mp hn) (fun h => hne h.symm)
        · exact hm k hk

/-- The set with one more number. -/
def insert (s : PlayerSet) (n : UInt64) : PlayerSet :=
  ⟨place n s.nums, place_increasing s.increasing⟩

/-- The set of some numbers. -/
def ofList (l : List UInt64) : PlayerSet := l.foldl insert ⟨[], .nil⟩

end PlayerSet

/-- Who is meant: everyone, the listed clients, or everyone else. -/
structure Selector where
  everyone : Bool
  inverted : Bool
  players : PlayerSet
  deriving DecidableEq

namespace Selector

/-- All clients. -/
def all : Selector := ⟨true, false, ⟨[], .nil⟩⟩

/-- The listed clients. -/
def only (players : PlayerSet) : Selector := ⟨false, false, players⟩

/-- All but the listed clients. -/
def except (players : PlayerSet) : Selector := ⟨false, true, players⟩

/-- Whether the client with this number is meant. -/
def includes (s : Selector) (i : Nat) : Bool :=
  s.everyone || (s.players.nums.any (·.toNat == i) != s.inverted)

/-- The clients meant, out of `n`, in increasing order. -/
def pick (s : Selector) (n : Nat) : List (Fin n) := (List.finRange n).filter (s.includes ·.val)

/-- The text of a selector. -/
def render (s : Selector) : String :=
  if s.everyone then "mass"
  else
    let names := ",".intercalate (s.players.nums.map fun n => "p" ++ toString n.toNat)
    (if s.inverted then "except" else "") ++ "[" ++ names ++ "]"

/-- The stored form of a selector. -/
def toJson (s : Selector) : Json :=
  .obj [("mass", .bool s.everyone), ("inverted", .bool s.inverted),
    ("player_nums", .arr (s.players.nums.map fun n => .int n.toNat))]

open Json Json.Record in
/-- Read a selector; every field has a default. -/
def ofJson? : Json → Option Selector :=
  record do
    let everyone ← defaulted "mass" bool? false
    let inverted ← defaulted "inverted" bool? false
    let players ← defaulted "player_nums" (list? natural?) []
    return ⟨everyone, inverted, .ofList (players.map (·.toUInt64))⟩

end Selector

end BotScript
