import Mathlib.Data.List.Perm.Basic
import BotScript.Json.Record

/-!
# What a record is read from

Of an object, reading a record takes nothing but what stands under the names of its fields. So two
objects are read alike if they have the same there, whatever else they have and in whatever order.
And reading a record calls on nothing but the values in it, so two ways to read them are alike if
they are for these.

Both are cases of one notion: two readers that, on fields related in some way, come to the same
result and leave fields related in the same way.

## Main definitions

* `Json.fieldAt`: what stands for a field of an object.
* `Json.Record.Related`: two readers on related fields.

## Main results

* `Json.Record.Related.bind`, `Json.Record.Related.map`: readers put together.
* `Json.variant?_congr`: objects that are alike.
* `Json.variant?_ext`: ways to read that are alike on shallow values.
* `Json.variant?_fixed`: readers that call on themselves.
-/

namespace BotScript

namespace Json

variable {α β : Type}

/-! ### One field of an object -/

@[simp] theorem valuesOf_nil (name : String) : valuesOf name [] = [] := rfl

theorem valuesOf_append (name : String) (fields more : List (String × Json)) :
    valuesOf name (fields ++ more) = valuesOf name fields ++ valuesOf name more := by
  simp [valuesOf]

@[simp] theorem valuesOf_cons (name key : String) (j : Json) (fields : List (String × Json)) :
    valuesOf name ((key, j) :: fields) =
      if key = name then j :: valuesOf name fields else valuesOf name fields := by
  by_cases h : key = name <;> simp [valuesOf, h]

theorem valuesOf_perm {fields fields' : List (String × Json)} (h : fields.Perm fields')
    (name : String) :
    (valuesOf name fields).Perm (valuesOf name fields') :=
  (h.filter _).map _

/-- What stands for a field: what is read from its value, or its default if it is not there. -/
def fieldAt (name : String) (read : Json → Option α) (default : Option α)
    (fields : List (String × Json)) : Option α :=
  match valuesOf name fields with
  | [] => default
  | [j] => read j
  | _ => none

/-- A single value, or several that are not told apart, in another order. -/
theorem eq_or_long_of_perm {values values' : List Json} (h : values.Perm values') :
    values = values' ∨ 2 ≤ values.length ∧ 2 ≤ values'.length := by
  have hlength := h.length_eq
  match values, values' with
  | [], [] => exact .inl rfl
  | [j], [j'] => exact .inl (List.singleton_perm_singleton.1 h ▸ rfl)
  | _ :: _ :: _, _ :: _ :: _ => exact .inr ⟨by simp, by simp⟩
  | [], _ :: _ => cases hlength
  | _ :: _, [] => cases hlength
  | [_], _ :: _ :: _ => cases hlength
  | _ :: _ :: _, [_] => cases hlength

/-- The order of fields does not matter. -/
theorem fieldAt_perm {fields fields' : List (String × Json)} (h : fields.Perm fields')
    (name : String) (read : Json → Option α) (default : Option α) :
    fieldAt name read default fields = fieldAt name read default fields' := by
  unfold fieldAt
  rcases eq_or_long_of_perm (valuesOf_perm h name) with heq | ⟨hlong, hlong'⟩
  · rw [heq]
  · match hvalues : valuesOf name fields, hvalues' : valuesOf name fields' with
    | _ :: _ :: _, _ :: _ :: _ => rfl
    | [], _ | [_], _ => simp [hvalues] at hlong
    | _, [] | _, [_] => simp [hvalues'] at hlong'

/-! ### Readers on related fields -/

/-- Whether nothing is left to be read that has to be. -/
def Fields.isSpent : Fields → Bool
  | .named _ | .listed [] => true
  | .listed (_ :: _) => false

namespace Record

/-- Two readers come to the same from related fields, and leave related fields. -/
def Related (R : Fields → Fields → Prop) (r r' : Record α) : Prop :=
  ∀ fs fs', R fs fs' → Option.Rel (fun p q => p.1 = q.1 ∧ R p.2 q.2) (r fs) (r' fs')

variable {R : Fields → Fields → Prop} {r r' : Record α}

theorem related_pure (a : α) : Related R (pure a : Record α) (pure a) :=
  fun _ _ h => .some ⟨rfl, h⟩

theorem Related.bind {k k' : α → Record β} (h : Related R r r') (hk : ∀ a, Related R (k a) (k' a)) :
    Related R (r >>= k) (r' >>= k') := by
  intro fs fs' hfs
  have hfirst := h fs fs' hfs
  simp only [Bind.bind, StateT.bind]
  -- Either both fail at once, or both go on from the same value.
  cases hr : r fs with
  | none =>
    rw [hr] at hfirst
    cases hr' : r' fs' with
    | none => exact .none
    | some q =>
      rw [hr'] at hfirst
      cases hfirst
  | some p =>
    rw [hr] at hfirst
    cases hr' : r' fs' with
    | none =>
      rw [hr'] at hfirst
      cases hfirst
    | some q =>
      rw [hr'] at hfirst
      obtain ⟨a, rest⟩ := p
      obtain ⟨a', rest'⟩ := q
      cases hfirst with
      | some hpair =>
        obtain ⟨rfl, hrest⟩ : a = a' ∧ R rest rest' := hpair
        exact hk a rest rest' hrest

theorem Related.map (h : Related R r r') (f : α → β) : Related R (f <$> r) (f <$> r') := by
  rw [← bind_pure_comp, ← bind_pure_comp]
  exact h.bind fun a => related_pure (f a)

/-- Two readers come to the same on whole records. -/
theorem Related.all_eq (h : Related R r r') (hspent : ∀ fs fs', R fs fs' → fs.isSpent = fs'.isSpent)
    {fs fs' : Fields} (hfs : R fs fs') : r.all fs = r'.all fs' := by
  have hall : ∀ (r : Record α) (fs : Fields),
      r.all fs = (r fs).bind fun p => if p.2.isSpent then some p.1 else none := by
    intro r fs
    unfold all
    rcases r fs with _ | ⟨a, ⟨fields⟩ | ⟨_ | ⟨j, rest⟩⟩⟩ <;> rfl
  have hpair := h fs fs' hfs
  -- Besides the result, only whether something is left matters.
  rw [hall, hall]
  generalize r fs = p at hpair
  generalize r' fs' = q at hpair
  cases hpair with
  | none => rfl
  | some hpq =>
    obtain ⟨hvalue, hrest⟩ := hpq
    simp only [Option.bind_some, hvalue, hspent _ _ hrest]

/-! ### Objects that are alike -/

/-- Fields of objects that are alike in some way. -/
def Named (P : List (String × Json) → List (String × Json) → Prop) (fs fs' : Fields) : Prop :=
  ∃ fields fields', fs = .named fields ∧ fs' = .named fields' ∧ P fields fields'

theorem Named.isSpent {P : List (String × Json) → List (String × Json) → Prop} {fs fs' : Fields}
    (h : Named P fs fs') : fs.isSpent = fs'.isSpent := by
  obtain ⟨fields, fields', rfl, rfl, -⟩ := h
  rfl

/-- Reading a field leaves the fields of an object as they are. -/
theorem field_named (name : String) (read : Json → Option α) (missing : Missing α)
    (fields : List (String × Json)) : field name read missing (.named fields) =
      (fieldAt name read missing.named fields).map (·, .named fields) := by
  simp only [field, fieldAt]
  rcases valuesOf name fields with _ | ⟨j, _ | ⟨j', rest⟩⟩ <;> rfl

theorem related_field_named {P : List (String × Json) → List (String × Json) → Prop} {name : String}
    {read : Json → Option α} {missing : Missing α}
    (h : ∀ fields fields', P fields fields' →
      fieldAt name read missing.named fields = fieldAt name read missing.named fields') :
    Related (Named P) (field name read missing) (field name read missing) := by
  rintro _ _ ⟨fields, fields', rfl, rfl, hP⟩
  rw [field_named, field_named, ← h fields fields' hP]
  cases fieldAt name read missing.named fields with
  | none => exact .none
  | some a => exact .some ⟨rfl, fields, fields', rfl, rfl, hP⟩

/-! ### Shallow values -/

/-- The same fields, with values that are not too deep. -/
def Shallow (d : Nat) (fs fs' : Fields) : Prop :=
  fs = fs' ∧ match fs with
    | .named fields => ∀ p ∈ fields, p.2.depth ≤ d
    | .listed items => ∀ j ∈ items, j.depth ≤ d

theorem Shallow.isSpent {d : Nat} {fs fs' : Fields} (h : Shallow d fs fs') :
    fs.isSpent = fs'.isSpent :=
  congrArg _ h.1

theorem mem_of_valuesOf {name : String} {fields : List (String × Json)} {j : Json}
    (h : j ∈ valuesOf name fields) : ∃ p ∈ fields, p.2 = j := by
  obtain ⟨p, hp, hj⟩ := List.mem_map.1 h
  exact ⟨p, (List.mem_filter.1 hp).1, hj⟩

/-- Ways to read that are alike on shallow values. -/
theorem related_field_shallow {d : Nat} {read read' : Json → Option α}
    (h : ∀ j, j.depth ≤ d → read j = read' j) (name : String) (missing : Missing α) :
    Related (Shallow d) (field name read missing) (field name read' missing) := by
  rintro fs _ ⟨rfl, hfs⟩
  cases fs with
  | named fields =>
    have hsame : fieldAt name read missing.named fields =
        fieldAt name read' missing.named fields := by
      unfold fieldAt
      split
      · rfl
      · rename_i j hvalues
        -- The value under the name is one of those in the object.
        obtain ⟨p, hp, rfl⟩ := mem_of_valuesOf (hvalues ▸ List.mem_singleton_self j)
        exact h p.2 (hfs p hp)
      · rfl
    rw [field_named, field_named, ← hsame]
    cases fieldAt name read missing.named fields with
    | none => exact .none
    | some a => exact .some ⟨rfl, rfl, hfs⟩
  | listed items =>
    cases items with
    | nil =>
      simp only [field]
      cases missing.listed with
      | none => exact .none
      | some a => exact .some ⟨rfl, rfl, hfs⟩
    | cons j rest =>
      simp only [field]
      rw [← h j (hfs j List.mem_cons_self)]
      cases read j with
      | none => exact .none
      | some a => exact .some ⟨rfl, rfl, fun k hk => hfs k (List.mem_cons_of_mem j hk)⟩

end Record

/-! ### Records -/

open Record

theorem tagged?_obj (tag : String) (fields : List (String × Json)) :
    tagged? tag (.obj fields) = (fieldAt tag string? none fields).map (·, .named fields) := by
  simp only [tagged?, fieldAt]
  rcases valuesOf tag fields with _ | ⟨j, _ | ⟨j', rest⟩⟩
  · rfl
  · cases j <;> rfl
  · cases j <;> rfl

/-- Objects of the same variant that are alike in its fields are read alike. -/
theorem variant?_congr {tag : String} {reader? : String → Option (Record α)}
    {P : String → List (String × Json) → List (String × Json) → Prop}
    {fields fields' : List (String × Json)}
    (htag : fieldAt tag string? none fields = fieldAt tag string? none fields')
    (hP : ∀ name, fieldAt tag string? none fields = some name → P name fields fields')
    (h : ∀ name, Option.Rel (Related (Named (P name))) (reader? name) (reader? name)) :
    variant? tag reader? (.obj fields) = variant? tag reader? (.obj fields') := by
  unfold variant?
  rw [tagged?_obj, tagged?_obj, ← htag]
  cases hname : fieldAt tag string? none fields with
  | none => rfl
  | some name =>
    have hreader := h name
    simp only [Option.map_some, Option.bind_eq_bind, Option.bind_some]
    generalize reader? name = r? at hreader
    cases r? with
    | none => rfl
    | some r =>
      cases hreader with
      | some hrelated =>
        exact hrelated.all_eq (fun _ _ hfs =>
          hfs.isSpent) ⟨fields, fields', rfl, rfl, hP name hname⟩

theorem record_congr {r : Record α} {P : List (String × Json) → List (String × Json) → Prop}
    {fields fields' : List (String × Json)} (hP : P fields fields') (h : Related (Named P) r r) :
    record r (.obj fields) = record r (.obj fields') :=
  h.all_eq (fun _ _ hfs => hfs.isSpent) ⟨fields, fields', rfl, rfl, hP⟩

/-! ### Depth -/

theorem depth_le_depthItems {j : Json} {items : List Json} (h : j ∈ items) :
    j.depth ≤ depthItems items := by
  induction items with
  | nil => cases h
  | cons first rest ih =>
    rw [depthItems]
    rcases List.mem_cons.1 h with rfl | h
    · exact Nat.le_max_left _ _
    · exact Nat.le_trans (ih h) (Nat.le_max_right _ _)

theorem depth_le_depthFields {p : String × Json} {fields : List (String × Json)} (h : p ∈ fields) :
    p.2.depth ≤ depthFields fields := by
  induction fields with
  | nil => cases h
  | cons first rest ih =>
    rw [depthFields]
    rcases List.mem_cons.1 h with rfl | h
    · exact Nat.le_max_left _ _
    · exact Nat.le_trans (ih h) (Nat.le_max_right _ _)

/-- What is in a record is less deep than the record. -/
theorem shallow_of_tagged? {tag name : String} {j : Json} {fs : Fields} {d : Nat}
    (h : tagged? tag j = some (name, fs)) (hdepth : j.depth ≤ d + 1) : Shallow d fs fs := by
  refine ⟨rfl, ?_⟩
  unfold tagged? at h
  split at h
  · rename_i fields
    split at h
    · cases h
      intro p hp
      have hle := depth_le_depthFields hp
      rw [depth] at hdepth
      omega
    · cases h
  · rename_i rest
    cases h
    intro k hk
    have hle := depth_le_depthItems (List.mem_cons_of_mem (.str name) hk)
    rw [depth] at hdepth
    omega
  · cases h

/-- Ways to read what is in a record that are alike there. -/
theorem variant?_ext {tag : String} {reader? reader?' : String → Option (Record α)} {d : Nat}
    (h : ∀ name, Option.Rel (Related (Shallow d)) (reader? name) (reader?' name)) {j : Json}
    (hdepth : j.depth ≤ d + 1) : variant? tag reader? j = variant? tag reader?' j := by
  unfold variant?
  cases htagged : tagged? tag j with
  | none => rfl
  | some p =>
    obtain ⟨name, fs⟩ := p
    have hname := h name
    simp only [Option.bind_eq_bind, Option.bind_some]
    generalize reader? name = r at hname
    generalize reader?' name = r' at hname
    cases hname with
    | none => rfl
    | some hrelated =>
      exact hrelated.all_eq (fun _ _ hfs => hfs.isSpent) (shallow_of_tagged? htagged hdepth)

/-- A reader that is made layer by layer, as deep as a value is, reads its values as it
reads itself. -/
theorem variant?_fixed {tag : String} (layer : (Json → Option α) → String → Option (Record α))
    {read : Nat → Json → Option α} (hzero : ∀ j, read 0 j = none)
    (hsucc : ∀ fuel j, read (fuel + 1) j = variant? tag (layer (read fuel)) j)
    (hlayer : ∀ d f g, (∀ j, depth j ≤ d → f j = g j) →
      ∀ name, Option.Rel (Related (Shallow d)) (layer f name) (layer g name)) (j : Json) :
    read j.depth j = variant? tag (layer fun k => read k.depth k) j := by
  have hflat : ∀ {j : Json}, j.depth = 0 → ∀ reader? : String → Option (Record α),
      variant? tag reader? j = none := by
    intro j hj reader?
    cases j <;> first | rfl | simp [depth] at hj
  -- With enough layers, one more makes no difference.
  have hstable : ∀ fuel j, depth j ≤ fuel → read fuel j = read (fuel + 1) j := by
    intro fuel
    induction fuel with
    | zero =>
      intro j hj
      rw [hzero, hsucc, hflat (Nat.le_zero.1 hj)]
    | succ fuel ih =>
      intro j hj
      rw [hsucc, hsucc]
      exact variant?_ext (hlayer fuel _ _ ih) hj
  have henough : ∀ fuel j, depth j ≤ fuel → read fuel j = read j.depth j := by
    intro fuel j hj
    induction hj with
    | refl => rfl
    | step hle ih => exact (hstable _ j hle).symm.trans ih
  -- What is in the value is less deep, and needs no more layers than its own depth.
  cases hdepth : j.depth with
  | zero => rw [hzero, hflat hdepth]
  | succ d =>
    rw [hsucc]
    exact variant?_ext (hlayer d _ _ (henough d)) (Nat.le_of_eq hdepth)

/-! ### Fields read one after the other -/

namespace Record

@[simp] theorem required_eq (name : String) (read : Json → Option α) :
    required name read = field name read ⟨none, none⟩ := rfl

@[simp] theorem defaulted_eq (name : String) (read : Json → Option α) (value : α) :
    defaulted name read value = field name read ⟨some value, some value⟩ := rfl

@[simp] theorem all_pure (a : α) (fields : List (String × Json)) :
    (pure a : Record α).all (.named fields) = some a := rfl

@[simp] theorem all_bind (name : String) (read : Json → Option α) (missing : Missing α)
    (k : α → Record β)
    (fields : List (String × Json)) : (field name read missing >>= k).all (.named fields) =
      (fieldAt name read missing.named fields).bind fun a => (k a).all (.named fields) := by
  unfold all
  simp only [Bind.bind, StateT.bind, field_named]
  cases fieldAt name read missing.named fields <;> rfl

@[simp] theorem all_map (name : String) (read : Json → Option α) (missing : Missing α) (f : α → β)
    (fields : List (String × Json)) : (f <$> field name read missing).all (.named fields) =
      (fieldAt name read missing.named fields).map f := by
  rw [← bind_pure_comp, all_bind]
  cases fieldAt name read missing.named fields <;> rfl

end Record

/-! ### Arrays -/

/-- Ways to read that are alike on the items of an array. -/
theorem list?_congr {read read' : Json → Option α} {j : Json} {d : Nat}
    (h : ∀ k, k.depth ≤ d → read k = read' k) (hdepth : j.depth ≤ d + 1) :
    list? read j = list? read' j := by
  cases j with
  | arr items =>
    have hitems : ∀ k ∈ items, read k = read' k := by
      intro k hk
      have hle := depth_le_depthItems hk
      rw [depth] at hdepth
      exact h k (by omega)
    simp only [list?]
    clear hdepth
    induction items with
    | nil => rfl
    | cons first rest ih =>
      rw [List.mapM_cons, List.mapM_cons, hitems first List.mem_cons_self,
        ih fun k hk => hitems k (List.mem_cons_of_mem first hk)]
  | _ => rfl

/-- An item of an array that is read alike. -/
theorem list?_replace {read : Json → Option α} {j j' : Json} (h : read j = read j')
    (before after : List Json) :
    list? read (.arr (before ++ j :: after)) = list? read (.arr (before ++ j' :: after)) := by
  simp only [list?, List.mapM_append, List.mapM_cons, h]

/-- Items that can be read back from their stored form. -/
theorem list?_map {read : Json → Option α} {store : α → Json} {xs : List α}
    (h : ∀ x ∈ xs, read (store x) = some x) : list? read (.arr (xs.map store)) = some xs := by
  simp only [list?]
  induction xs with
  | nil => rfl
  | cons x rest ih =>
    rw [List.map_cons, List.mapM_cons, h x List.mem_cons_self,
      ih fun y hy => h y (List.mem_cons_of_mem x hy)]
    rfl

end Json

end BotScript
