import BotScript.Json.Writer
import BotScript.Proofs.Json.Record

/-!
# Numbers in JSON values

JSON has no text for a double that is not finite: it is written as `null`, and so it is lost. Every
other number stays. In the other direction nothing is made up: a number that is read stands in the
value it is read from. As a record may be read field by field, this is said of readers, together
with what they leave of the fields.

## Main definitions

* `Number.isFinite`: whether a double is a number with a text of its own.
* `Json.numbersIn`: the numbers in a value.
* `Json.written`: the value that the text of a value stands for.
* `Json.Reads`, `Json.Record.Draws`: what is read from values whose numbers satisfy a condition.

## Main results

* `Json.compact_written`: a value has the same text as the one it stands for.
* `Json.Record.Draws.bind`, `Json.Record.Draws.field`: readers put together.
* `Json.Record.Draws.variant`, `Json.Reads.list`, `Json.content_of_pair?`: records,
  arrays and pairs.
-/

namespace BotScript

/-- Whether a double is neither infinite nor undefined. -/
def Number.isFinite (x : Float) : Bool :=
  match Parts.ofFloat x with
  | .finite .. => true
  | .notANumber | .infinite _ => false

namespace Json

/-! ### What a text stands for -/

mutual

/-- The value that the text of a value stands for: a number that is not finite becomes `null`. -/
def written : Json → Json
  | .real x => if Number.isFinite x then .real x else .null
  | .arr items => .arr (writtenItems items)
  | .obj fields => .obj (writtenFields fields)
  | j => j

/-- `written` on the items of an array. -/
def writtenItems : List Json → List Json
  | [] => []
  | j :: rest => written j :: writtenItems rest

/-- `written` on the values of some fields. -/
def writtenFields : List (String × Json) → List (String × Json)
  | [] => []
  | (key, j) :: rest => (key, written j) :: writtenFields rest

end

theorem write_of_not_finite {x : Float} (h : Number.isFinite x = false) :
    numbers.write x = "null" := by
  unfold Number.isFinite at h
  unfold Number.Layout.write
  cases hparts : Number.Parts.ofFloat x with
  | notANumber => rfl
  | infinite negative => rfl
  | finite negative mantissa exponent =>
    rw [hparts] at h
    cases h

mutual

/-- A value has the same text as the one it stands for. -/
theorem compact_written (j : Json) : compact j.written = compact j := by
  cases j with
  | real x =>
    by_cases hfinite : Number.isFinite x = true
    · rw [written, if_pos hfinite]
    · rw [written, if_neg hfinite, compact, compact, write_of_not_finite (by simpa using hfinite)]
  | arr items => rw [written, compact, compact, compactItems_written items]
  | obj fields => rw [written, compact, compact, compactFields_written fields]
  | null | bool b | int n | str s => rfl

theorem compactItems_written (items : List Json) :
    compactItems (writtenItems items) = compactItems items := by
  match items with
  | [] => rfl
  | [j] => exact compact_written j
  | j :: k :: rest =>
    have hrest := compactItems_written (k :: rest)
    change compact j.written ++ "," ++ compactItems (writtenItems (k :: rest)) =
      compact j ++ "," ++ compactItems (k :: rest)
    rw [hrest, compact_written j]

theorem compactFields_written (fields : List (String × Json)) :
    compactFields (writtenFields fields) = compactFields fields := by
  match fields with
  | [] => rfl
  | [(key, j)] => simp only [writtenFields, compactFields, compact_written j]
  | (key, j) :: (key', k) :: rest =>
    have hrest := compactFields_written ((key', k) :: rest)
    change stringText key ++ ":" ++ compact j.written ++ "," ++
        compactFields (writtenFields ((key', k) :: rest)) =
      stringText key ++ ":" ++ compact j ++ "," ++ compactFields ((key', k) :: rest)
    rw [hrest, compact_written j]

end

theorem writtenItems_eq_self {items : List Json} (h : ∀ j ∈ items, written j = j) :
    writtenItems items = items := by
  induction items with
  | nil => rfl
  | cons j rest ih =>
    rw [writtenItems, h j List.mem_cons_self, ih fun k hk => h k (List.mem_cons_of_mem j hk)]

/-! ### The numbers of a value -/

mutual

/-- The numbers in a value, whole numbers as doubles. -/
def numbersIn : Json → List Float
  | .int n => [Float.ofInt n]
  | .real x => [x]
  | .arr items => numbersInItems items
  | .obj fields => numbersInFields fields
  | _ => []

/-- The numbers in the items of an array. -/
def numbersInItems : List Json → List Float
  | [] => []
  | j :: rest => numbersIn j ++ numbersInItems rest

/-- The numbers in the values of some fields. -/
def numbersInFields : List (String × Json) → List Float
  | [] => []
  | (_, j) :: rest => numbersIn j ++ numbersInFields rest

end

/-- A condition holds of all numbers in a value. -/
def Has (S : Float → Prop) (j : Json) : Prop := ∀ x ∈ j.numbersIn, S x

/-- What is read from a value whose numbers satisfy a condition. -/
def Reads {α : Type} (S : Float → Prop) (read : Json → Option α) (Q : α → Prop) : Prop :=
  ∀ j a, Has S j → read j = some a → Q a

variable {S : Float → Prop} {α β : Type} {Q : α → Prop} {R : β → Prop}

theorem has_arr {items : List Json} (h : Has S (.arr items)) {j : Json} (hj : j ∈ items) :
    Has S j := by
  have hsubset : j.numbersIn ⊆ numbersInItems items := by
    induction items with
    | nil => cases hj
    | cons first rest ih =>
      rw [numbersInItems]
      rcases List.mem_cons.1 hj with rfl | hj
      · exact List.subset_append_left _ _
      · refine List.subset_append_of_subset_right _ (ih (fun x hx => h x ?_) hj)
        exact List.mem_append_right _ hx
  exact fun x hx => h x (hsubset hx)

theorem has_obj {fields : List (String × Json)} (h : Has S (.obj fields)) {p : String × Json}
    (hp : p ∈ fields) : Has S p.2 := by
  have hsubset : p.2.numbersIn ⊆ numbersInFields fields := by
    induction fields with
    | nil => cases hp
    | cons first rest ih =>
      rw [numbersInFields]
      rcases List.mem_cons.1 hp with rfl | hp
      · exact List.subset_append_left _ _
      · refine List.subset_append_of_subset_right _ (ih (fun x hx => h x ?_) hp)
        exact List.mem_append_right _ hx
  exact fun x hx => h x (hsubset hx)

/-- What is read from an array is read from its items. -/
theorem exists_of_mapM {read : Json → Option α} {items : List Json} {as : List α} {a : α}
    (h : items.mapM read = some as) (ha : a ∈ as) : ∃ j ∈ items, read j = some a := by
  induction items generalizing as with
  | nil =>
    cases h
    cases ha
  | cons j rest ih =>
    rw [List.mapM_cons] at h
    obtain ⟨b, hb, h⟩ := Option.bind_eq_some_iff.1 h
    obtain ⟨bs, hbs, h⟩ := Option.bind_eq_some_iff.1 h
    cases h
    rcases List.mem_cons.1 ha with rfl | ha
    · exact ⟨j, List.mem_cons_self, hb⟩
    · obtain ⟨k, hk, hread⟩ := ih hbs ha
      exact ⟨k, List.mem_cons_of_mem j hk, hread⟩

namespace Reads

variable {read : Json → Option α}

theorem trivial (read : Json → Option α) : Reads S read fun _ => True := fun _ _ _ _ => True.intro

/-- A number that is read is one of the value. -/
theorem number : Reads S number? S := by
  intro j x hj hx
  unfold number? at hx
  split at hx
  · cases hx
    exact hj _ List.mem_cons_self
  · cases hx
    exact hj _ List.mem_cons_self
  · cases hx

theorem map (h : Reads S read Q) {f : α → β} (hf : ∀ a, Q a → R (f a)) :
    Reads S (fun j => (read j).map f) R := by
  intro j b hj hb
  obtain ⟨a, ha, rfl⟩ := Option.map_eq_some_iff.1 hb
  exact hf a (h j a hj ha)

theorem list (h : Reads S read Q) : Reads S (list? read) fun as => ∀ a ∈ as, Q a := by
  intro j as hj has a ha
  unfold list? at has
  split at has
  · rename_i items
    obtain ⟨k, hk, hread⟩ := exists_of_mapM has ha
    exact h k a (has_arr hj hk) hread
  · cases has

theorem orNull (h : Reads S read Q) : Reads S (Record.orNull read) fun a => ∀ b ∈ a, Q b := by
  intro j a hj ha b hb
  unfold Record.orNull at ha
  split at ha
  · cases ha
    cases hb
  · obtain ⟨c, hc, rfl⟩ := Option.map_eq_some_iff.1 ha
    cases hb
    exact h j b hj hc

end Reads

/-- The content of a variant is a part of the value. -/
theorem content_of_pair? {tag content name : String} {j c : Json} (hj : Has S j)
    (h : pair? tag content j = some (name, some c)) : Has S c := by
  unfold pair? at h
  split at h
  · rename_i fields
    split at h
    · obtain ⟨t, -, ht⟩ := Option.map_eq_some_iff.1 h
      cases ht
    · rename_i k _ hcontent
      obtain ⟨t, -, ht⟩ := Option.map_eq_some_iff.1 h
      cases ht
      obtain ⟨p, hp, rfl⟩ := Record.mem_of_valuesOf (hcontent ▸ List.mem_singleton_self c)
      exact has_obj hj hp
    · cases h
  · obtain ⟨t, -, ht⟩ := Option.map_eq_some_iff.1 h
    cases ht
    exact has_arr hj (by simp)
  · cases h

/-- A condition holds of all numbers in some fields. -/
def Fields.Has (S : Float → Prop) : Fields → Prop
  | .named fields => ∀ p ∈ fields, p.2.Has S
  | .listed items => ∀ j ∈ items, j.Has S

namespace Record

/-- What is read from fields whose numbers satisfy a condition, and the fields that are left. -/
def Draws (S : Float → Prop) (r : Record α) (Q : α → Prop) : Prop :=
  ∀ fs a rest, fs.Has S → r fs = some (a, rest) → Q a ∧ rest.Has S

namespace Draws

variable {r : Record α}

theorem pure {a : α} (h : Q a) : Draws S (pure a : Record α) Q := by
  intro fs a' rest hfs ha
  cases ha
  exact ⟨h, hfs⟩

theorem bind {k : α → Record β} (h : Draws S r Q) (hk : ∀ a, Q a → Draws S (k a) R) :
    Draws S (r >>= k) R := by
  intro fs b rest hfs hb
  simp only [Bind.bind, StateT.bind] at hb
  cases hfirst : r fs with
  | none =>
    rw [hfirst] at hb
    cases hb
  | some p =>
    obtain ⟨a, middle⟩ := p
    rw [hfirst] at hb
    obtain ⟨ha, hmiddle⟩ := h fs a middle hfs hfirst
    exact hk a ha middle b rest hmiddle hb

theorem map (h : Draws S r Q) {f : α → β} (hf : ∀ a, Q a → R (f a)) : Draws S (f <$> r) R := by
  rw [← bind_pure_comp]
  exact h.bind fun a ha => .pure (hf a ha)

/-- A field has what is read from its value, or what stands for it if it is missing. -/
theorem field {name : String} {read : Json → Option α} {missing : Missing α} (h : Reads S read Q)
    (hlisted : ∀ a ∈ missing.listed, Q a) (hnamed : ∀ a ∈ missing.named, Q a) :
    Draws S (field name read missing) Q := by
  intro fs a rest hfs ha
  unfold Record.field at ha
  split at ha
  · rename_i fields
    split at ha
    · obtain ⟨b, hb, hpair⟩ := Option.map_eq_some_iff.1 ha
      cases hpair
      exact ⟨hnamed a hb, hfs⟩
    · rename_i j hvalues
      obtain ⟨b, hb, hpair⟩ := Option.map_eq_some_iff.1 ha
      cases hpair
      -- The value under the name is one of those in the object.
      obtain ⟨p, hp, rfl⟩ := mem_of_valuesOf (hvalues ▸ List.mem_singleton_self j)
      exact ⟨h p.2 a (hfs p hp) hb, hfs⟩
    · cases ha
  · obtain ⟨b, hb, hpair⟩ := Option.map_eq_some_iff.1 ha
    cases hpair
    exact ⟨hlisted a hb, hfs⟩
  · rename_i j items
    obtain ⟨b, hb, hpair⟩ := Option.map_eq_some_iff.1 ha
    cases hpair
    exact ⟨h j a (hfs j List.mem_cons_self) hb, fun k hk => hfs k (List.mem_cons_of_mem j hk)⟩

theorem required {name : String} {read : Json → Option α} (h : Reads S read Q) :
    Draws S (required name read) Q :=
  .field h (fun _ ha => nomatch ha) fun _ ha => nomatch ha

theorem all {fs : Fields} {a : α} (h : Draws S r Q) (hfs : fs.Has S) (ha : r.all fs = some a) :
    Q a := by
  unfold Record.all at ha
  split at ha
  · rename_i hr
    cases ha
    exact (h fs a _ hfs hr).1
  · rename_i hr
    cases ha
    exact (h fs a _ hfs hr).1
  · cases ha

/-- A record that is one of several variants. -/
theorem variant {tag : String} {reader? : String → Option (Record α)}
    (h : ∀ name r, reader? name = some r → Draws S r Q) : Reads S (variant? tag reader?) Q := by
  intro j a hj ha
  unfold variant? at ha
  obtain ⟨⟨name, fs⟩, htagged, ha⟩ := Option.bind_eq_some_iff.1 ha
  obtain ⟨r, hr, hall⟩ := Option.bind_eq_some_iff.1 ha
  refine (h name r hr).all ?_ hall
  unfold tagged? at htagged
  split at htagged
  · split at htagged
    · cases htagged
      exact fun p hp => has_obj hj hp
    · cases htagged
  · cases htagged
    exact fun k hk => has_arr hj (List.mem_cons_of_mem _ hk)
  · cases htagged

end Draws

end Record

end Json

end BotScript
