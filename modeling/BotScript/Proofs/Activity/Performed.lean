import BotScript.Proofs.Activity.Turns

/-!
# Chains that everybody goes through

An activity may send some clients through the same chain side by side, or start the same action on
them one after the other and wait for all. Either way, when it has succeeded, each of the clients
has left a whole transcript of the chain and nothing else has been noted down of it; and if no two
of them share the input focus, they were first called in order.

## Main definitions

* `Chain.CallsFirst`: a chain makes a call before anything else but asking for the focus.
* `World.Performed`: some clients have all gone through a chain.
* `Group.Performing`: some clients are on their way through a chain.
* `Activity.launchAll`: an action is started on some clients, one after the other.

## Main results

* `Group.Performing.move`, `Group.Performing.performed`: what a turn preserves, and what
  it comes to.
* `performed_of_gather`, `performed_of_launchAll`: what a run comes to.
-/

namespace BotScript

open World

variable {σ : Type} {n : Nat} {κ : AnswerKind} {α : Type}

/-- A chain makes a call before anything else, except that it may ask for the focus first. -/
def Chain.CallsFirst : Chain κ → Prop
  | .call _ _ => True
  | .focus (.call _ _) => True
  | _ => False

/-- Some clients have all gone through a chain since a world, with success; if no two of them share
the focus, they were first called in order. -/
structure World.Performed (crew : Crew n) (chain : Chain κ) (clients : List (Fin n))
    (w w' : World σ n) :
    Prop where
  told : ∀ i ∈ clients, ∃ a l, w'.talk i = w.talk i ++ l ∧ chain.Transcript crew i (.ok a) l
  inOrder : crew.Apart clients →
    ∃ events, w'.journal = events ++ w.journal ∧ firstCalls events = clients

theorem Crew.Apart.sameFocus_of_mem {crew : Crew n} {clients : List (Fin n)}
    (h : crew.Apart clients) {i j : Fin n} (hi : i ∈ clients) (hj : j ∈ clients) (hne : i ≠ j) :
    crew.sameFocus i j = false := by
  have hsymm : Std.Symm fun i j => crew.sameFocus i j = false :=
    ⟨fun i j hij => (crew.sameFocus_comm j i).trans hij⟩
  exact List.Pairwise.forall h hi hj hne

/-! ### Groups -/

namespace Group

variable {crew : Crew n} {chain : Chain κ} {clients : List (Fin n)} {w₀ w : World σ n}
  {g : Group n κ} {i : Nat}

/-- Some clients are on their way through a chain: what has been noted down of them are beginnings
of transcripts, and they are first called in order, unless somebody from outside claims the focus of
one of them. -/
structure Performing (crew : Crew n) (chain : Chain κ) (clients : List (Fin n)) (w₀ w : World σ n)
    (g : Group n κ) : Prop where
  tells : Tells crew chain clients w₀ w g.members
  inTurn : crew.Apart clients → (∃ called waiting, InTurn crew w₀ w g called waiting) ∨
    ∃ k j, Blocked crew k j w g.members

theorem Performing.move [ClientModel σ] (hnodup : clients.Nodup)
    (h : Performing crew chain clients w₀ w g) (hnext : g.next? crew w = some i) :
    Performing crew chain clients w₀ (g.move crew w i).2 (g.move crew w i).1 := by
  refine ⟨h.tells.move hnodup hnext, fun hapart => ?_⟩
  rcases h.inTurn hapart with ⟨called, waiting, hturn⟩ | ⟨k, j, hblocked⟩
  · rw [← h.tells.who_eq] at hapart
    exact .inl (hturn.move hapart hnext)
  · exact .inr ⟨k, j, hblocked.move hnext⟩

theorem Performing.wake (h : Performing crew chain clients w₀ w g) (t : Nat) :
    Performing crew chain clients w₀ (w.atTime t) ⟨g.members, 0⟩ := by
  refine ⟨⟨h.tells.who_eq, h.tells.tells⟩, fun hapart => ?_⟩
  rcases h.inTurn hapart with ⟨called, waiting, hturn⟩ | ⟨k, j, hblocked⟩
  · exact .inl ⟨called, waiting, hturn.wake t⟩
  · exact .inr ⟨k, j, hblocked.claimed, hblocked.rival, hblocked.outside, hblocked.member,
      hblocked.waits⟩

/-- When the group has succeeded, everybody has gone through the chain. -/
theorem Performing.performed (h : Performing crew chain clients w₀ w g) {results : List κ.Answer}
    (hverdict : g.verdict = some (.ok results)) : w₀.Performed crew chain clients w := by
  refine ⟨fun i hi => ?_, fun hapart => ?_⟩
  · rw [← h.tells.who_eq] at hi
    obtain ⟨m, hm, rfl⟩ := List.mem_map.1 hi
    obtain ⟨a, hended⟩ := exists_of_forall₂ (verdict_eq_ok_iff.1 hverdict) hm
    obtain ⟨l, htalk, htranscript⟩ := h.tells.of_ended hm hended
    exact ⟨a, l, htalk, htranscript⟩
  · rcases h.inTurn hapart with ⟨called, waiting, hturn⟩ | ⟨k, j, hblocked⟩
    · rw [← h.tells.who_eq]
      exact hturn.of_succeeded hverdict
    · exact absurd hverdict (hblocked.not_succeeded results)

/-- A client whose focus somebody else claims is kept waiting from the beginning. -/
theorem blocked_start {next : Chain κ} {k : Fin n} (hapart : crew.Apart clients) (hk : k ∈ clients)
    (hrivalled : ¬ w.Unrivalled crew k) :
    ∃ j, Blocked crew k j w (ofChains (clients.map fun i => (i, .focus next))).members := by
  have hwho : (ofChains (clients.map fun i => (i, .focus next))).members.map Member.who =
      clients := by
    simp [ofChains, Function.comp_def]
  obtain ⟨hsome, hother⟩ := not_or.1 hrivalled
  obtain ⟨j, hj⟩ := Option.ne_none_iff_exists'.1 hsome
  have hne : j ≠ k := by
    rintro rfl
    exact hother (by rw [hasFocus, hj, beq_self_eq_true])
  refine ⟨j, hj, hne, fun hmem => ?_, ?_, fun m hm _ => ?_⟩
  · -- Two of the clients would share the focus.
    rw [hwho] at hmem
    have hshare : crew.sameFocus k j = true := List.find?_some hj
    rw [hapart.sameFocus_of_mem hk hmem hne.symm] at hshare
    cases hshare
  · rw [← hwho] at hk
    exact List.mem_map.1 hk
  · obtain ⟨c, hc, rfl⟩ := List.mem_map.1 hm
    obtain ⟨i, -, rfl⟩ := List.mem_map.1 hc
    exact ⟨next, .inl rfl⟩

theorem performing_start (crew : Crew n) (hchain : chain.CallsFirst) (clients : List (Fin n))
    (w : World σ n) :
    Performing crew chain clients w w (ofChains (clients.map fun i => (i, chain))) := by
  refine ⟨tells_start crew chain clients w, fun hapart => ?_⟩
  have hturn : (∀ i ∈ clients, (⟨i, .ready chain⟩ : Member n κ).Early crew w) →
      InTurn crew w w (ofChains (clients.map fun i => (i, chain))) []
        (ofChains (clients.map fun i => (i, chain))).members := by
    refine fun hearly => ⟨rfl, Nat.le_refl 0, fun m hm => ?_, [], rfl, rfl⟩
    obtain ⟨c, hc, rfl⟩ := List.mem_map.1 hm
    obtain ⟨i, hi, rfl⟩ := List.mem_map.1 hc
    exact hearly i hi
  match chain, hchain with
  | .call c next, _ => exact .inl ⟨_, _, hturn fun i _ => .calls c next⟩
  | .focus (.call c next), _ =>
    -- Nobody in the group gives up a claim from outside, so it keeps the group from
    -- succeeding at all.
    by_cases hfree : ∀ i ∈ clients, w.Unrivalled crew i
    · exact .inl ⟨_, _, hturn fun i hi => .asks c next (hfree i hi)⟩
    · simp only [not_forall] at hfree
      obtain ⟨k, hk, hrivalled⟩ := hfree
      obtain ⟨j, hblocked⟩ := blocked_start hapart hk hrivalled
      exact .inr ⟨k, j, hblocked⟩

end Group

/-! ### Runs -/

namespace Running

variable [ClientModel σ] {crew : Crew n} {alarm later : Alarm} {fuel : Nat} {w₀ w w' u : World σ n}
  {g : Group n κ} {chain : Chain κ} {clients : List (Fin n)} {r' : Running n α} {x y : α}

/-- A group that is under way does not come to a result by itself. -/
theorem tick_grouped_ne {next : List κ.Answer → Activity n α} :
    tick crew alarm w ⟨[], .grouped g next⟩ ≠ .halt (.ended u (.ok y)) := by
  intro htick
  rcases tick_grouped_cases crew alarm w g next with
    ⟨_, -, hon⟩ | ⟨_, -, hon⟩ | ⟨_, hon⟩ | ⟨o, hhalt, hother⟩
  · cases htick.symm.trans hon
  · cases htick.symm.trans hon
  · cases htick.symm.trans hon
  · cases htick.symm.trans hhalt
    exact hother u y rfl

/-- What a group comes to that some clients go through a chain in. -/
theorem performed_of_grouped (hnodup : clients.Nodup)
    (h : Group.Performing crew chain clients w₀ w g)
    (hcomes : Comes crew alarm w ⟨[], .grouped g fun _ => .done x⟩ w' r')
    (hhalt : r'.tick crew later w' = .halt (.ended u (.ok y))) :
    y = x ∧ w₀.Performed crew chain clients u := by
  rcases hcomes.of_grouped (fun w g i hg hnext => hg.move hnodup hnext) (fun w g t hg =>
    hg.wake t) h with
    ⟨g', -, rfl⟩ | ⟨w₁, g₁, results, hg₁, hverdict, hdone⟩
  · exact absurd hhalt tick_grouped_ne
  · rcases hdone.cases_head with ⟨rfl, rfl⟩ | ⟨w₂, r₂, htick, -⟩
    · cases hhalt
      exact ⟨rfl, hg₁.performed hverdict⟩
    · cases htick

/-- A run that has come to a result has come to something that halts with it. -/
theorem exists_halt_of_run {a : Activity n α} (hrun : a.run crew alarm fuel w = .ended u (.ok y)) :
    ∃ later w' r', Comes crew alarm w ⟨[], .going a⟩ w' r' ∧
      r'.tick crew later w' = .halt (.ended u (.ok y)) := by
  obtain ⟨later, w', r', hcomes, -, hend⟩ := exists_comes crew alarm fuel w (.ofActivity a)
  rw [show (Running.ofActivity a).run crew alarm fuel w = .ended u (.ok y) from hrun] at hend
  rcases hend with hfuel | hhalt
  · cases hfuel
  · exact ⟨later, w', r', hcomes, hhalt⟩

end Running

section Gather

variable [ClientModel σ] {crew : Crew n} {alarm : Alarm} {fuel : Nat} {w u : World σ n}
  {chain : Chain κ} {clients : List (Fin n)} {x y : α}

/-- Some clients are sent through a chain side by side. -/
theorem performed_of_gather (hnodup : clients.Nodup) (hchain : chain.CallsFirst)
    (hrun : (Activity.gather (clients.map fun i => (i, chain)) fun _ => .done x).run crew alarm fuel
      w = .ended u (.ok y)) :
    y = x ∧ w.Performed crew chain clients u := by
  obtain ⟨later, w', r', hcomes, hhalt⟩ := Running.exists_halt_of_run hrun
  rcases hcomes.cases_head with ⟨rfl, rfl⟩ | ⟨w₁, r₁, htick, hrest⟩
  · cases hhalt
  · cases htick
    have hstart := Group.performing_start crew hchain clients w
    exact Running.performed_of_grouped hnodup hstart hrest hhalt

end Gather

/-! ### Actions that are started one after the other -/

/-- An action is started on some clients, one after the other; then all of them are waited for. -/
def Activity.launchAll (c : Call .nothing) (next : Activity n α) : List (Fin n) → Activity n α
  | [] => .join next
  | i :: rest => .launch i c (launchAll c next rest)

/-- An action has been started on some clients since a world, and nobody else has been called. -/
structure Group.Launched (crew : Crew n) (c : Call .nothing) (clients : List (Fin n))
    (w₀ w : World σ n) (members : List (Member n .nothing)) : Prop where
  tells : Tells crew (.once c) clients w₀ w members
  others : ∀ i, i ∉ clients → w.talk i = w₀.talk i
  called : ∃ events, w.journal = events ++ w₀.journal ∧ firstCalls events = clients

section Launch

variable [ClientModel σ] {crew : Crew n} {alarm : Alarm} {fuel : Nat} {w₀ w w' u : World σ n}
  {c : Call .nothing} {clients rest : List (Fin n)} {members : List (Member n .nothing)} {x y : α}

/-- The action is started on one more client. -/
theorem Group.Launched.launch (h : Launched crew c clients w₀ w members) {i : Fin n}
    (hi : i ∉ clients) (due : Option Nat) (result : Except ClientError Unit) :
    Launched crew c (clients ++ [i]) w₀ (w.call crew i c).2
      (members ++ [⟨i, .calling c due result .done⟩]) := by
  have hsame : ∀ j, j ≠ i → SameFor j (w.call crew i c).2 w := fun j hj => sameFor_call crew hj w c
  refine ⟨⟨by simp [h.tells.who_eq], fun m hm => ?_⟩, fun j hj => ?_, ?_⟩
  · rcases List.mem_append.1 hm with hm | hm
    · have hmem : m.who ∈ clients := h.tells.who_eq ▸ List.mem_map_of_mem hm
      exact (h.tells.tells m hm).congr (hsame m.who fun heq => hi (heq ▸ hmem))
    · rw [List.mem_singleton.1 hm, ← h.others i hi]
      exact (Member.tells_ready crew (.once c) w i).noted
        (talk_record_self (by simp [Event.concerns]))
        fun r more hmore => hmore w.now
  · rw [List.mem_append, not_or, List.mem_singleton] at hj
    exact (hsame j hj.2).talk_eq.trans (h.others j hj.1)
  · obtain ⟨events, hjournal, hfirst⟩ := h.called
    refine ⟨.made w.now i c (w.focusHeld crew i) :: events, congrArg _ hjournal, ?_⟩
    rw [firstCalls_made (hfirst ▸ hi), hfirst]

omit [ClientModel σ] in
/-- Those on whom the action has been started are on their way through it, and were
called in order. -/
theorem Group.Launched.performing (h : Launched crew c clients w₀ w members) :
    Performing crew (.once c) clients w₀ w ⟨members, 0⟩ := by
  refine ⟨h.tells, fun _ => .inl ⟨members, [], by simp, Nat.zero_le _, nofun, ?_⟩⟩
  rw [h.tells.who_eq]
  exact h.called

/-- What comes of starting an action on clients: there are still some left, or all are
waited for. -/
theorem Running.Comes.of_launchAll {next : Activity n α} {r' : Running n α}
    (hnodup : (clients ++ rest).Nodup) (h : Group.Launched crew c clients w₀ w members)
    (hcomes : Comes crew alarm w ⟨members, .going (.launchAll c next rest)⟩ w' r') :
    (∃ members' rest', r' = ⟨members', .going (.launchAll c next rest')⟩) ∨
      ∃ w₁ members₁, Group.Launched crew c (clients ++ rest) w₀ w₁ members₁ ∧
        Comes crew alarm w₁ ⟨[], .grouped ⟨members₁, 0⟩ fun _ => next⟩ w' r' := by
  -- The induction is on those who are left; the others are in `clients`.
  induction rest generalizing clients w members with
  | nil =>
    rcases hcomes.cases_head with ⟨-, rfl⟩ | ⟨w₁, r₁, htick, hcomes⟩
    · exact .inl ⟨members, [], rfl⟩
    · cases htick
      rw [List.append_nil]
      exact .inr ⟨w, members, h, hcomes⟩
  | cons i rest ih =>
    rcases hcomes.cases_head with ⟨-, rfl⟩ | ⟨w₁, r₁, htick, hcomes⟩
    · exact .inl ⟨members, i :: rest, rfl⟩
    · cases htick
      have hi : i ∉ clients := by
        rw [List.nodup_middle, List.nodup_cons] at hnodup
        exact fun hmem => hnodup.1 (List.mem_append_left _ hmem)
      rw [List.append_cons] at hnodup ⊢
      exact ih hnodup (h.launch hi _ _) hcomes

/-- An action is started on some clients, one after the other. -/
theorem performed_of_launchAll (hnodup : clients.Nodup)
    (hrun : (Activity.launchAll c (.done x) clients).run crew alarm fuel w = .ended u (.ok y)) :
    y = x ∧ w.Performed crew (.once c) clients u := by
  obtain ⟨later, w', r', hcomes, hhalt⟩ := Running.exists_halt_of_run hrun
  have hnone : Group.Launched crew c [] w w [] :=
    ⟨⟨rfl, nofun⟩, fun _ _ => rfl, [], rfl, rfl⟩
  have hall : ([] ++ clients).Nodup := hnodup
  rcases hcomes.of_launchAll hall hnone with
    ⟨members, rest, rfl⟩ | ⟨w₁, members₁, hlaunched, hgrouped⟩
  · cases rest <;> cases hhalt
  · exact Running.performed_of_grouped hnodup hlaunched.performing hgrouped hhalt

end Launch

end BotScript
