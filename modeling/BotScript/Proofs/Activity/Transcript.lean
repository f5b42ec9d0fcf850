import BotScript.Proofs.Activity.Calls
import BotScript.Proofs.Activity.Focus

/-!
# What is noted down of a chain

A chain that comes to its end leaves a transcript: the calls that were made, in order, each with
what came of it. Which transcripts a chain can leave is read off the chain. Whoever else is in the
group, what has been noted down of a client, together with what a rest of its chain may still leave,
is at any time a transcript of the whole chain.

## Main definitions

* `Chain.Transcript`: what a chain may leave that comes to some result.
* `Member.Tells`: what has been noted down of a member is the beginning of a transcript.
* `Group.Tells`: the same for all members of a group.

## Main results

* `Member.Tells.move`, `Group.Tells.move`: what one turn preserves.
* `Group.Tells.of_ended`: the transcript of a member that has come to its end.
* `Running.tick_grouped_cases`: what a small step of a group can be.
* `Running.Comes.of_grouped`: what a group preserves in its turns, a run preserves.
-/

namespace BotScript

open World

variable {σ : Type} {n : Nat} {ι κ : AnswerKind} {α : Type}

/-- What is noted down of a client that goes through a chain and comes to a result. -/
inductive Chain.Transcript (crew : Crew n) (i : Fin n) :
    Chain κ → Except Fault κ.Answer → List (Event n) → Prop
  | done (a : κ.Answer) : Transcript crew i (.done a) (.ok a) []
  | fail (f : Fault) : Transcript crew i (.fail f) (.error f) []
  | answered {ι : AnswerKind} {c : Call ι} {next : ι.Answer → Chain κ} {a : ι.Answer}
      {r : Except Fault κ.Answer} {l : List (Event n)} (t t' : Nat)
      (h : Transcript crew i (next a) r l) :
      Transcript crew i (.call c next) r (.made t i c false :: .answered t' i c a :: l)
  | failed {ι : AnswerKind} {c : Call ι} {next : ι.Answer → Chain κ} (t t' : Nat)
      (e : ClientError) :
      Transcript crew i (.call c next) (.error (.client (crew.title i) e))
        [.made t i c false, .failed t' i c e]
  | rest {ms : Nat} {next : Chain κ} {r : Except Fault κ.Answer} {l : List (Event n)}
      (h : Transcript crew i next r l) : Transcript crew i (.rest ms next) r l
  | focus {next : Chain κ} {r : Except Fault κ.Answer} {l : List (Event n)}
      (h : Transcript crew i next r l) : Transcript crew i (.focus next) r l
  /-- A poll is a call that may lead back to it. -/
  | poll {ι : AnswerKind} {c : Call ι} {enough : ι.Answer → Bool} {every : Nat} {next : Chain κ}
      {r : Except Fault κ.Answer} {l : List (Event n)}
      (h : Transcript crew i
        (.call c fun a => if enough a then next else .rest every (.poll c enough every next)) r l) :
      Transcript crew i (.poll c enough every next) r l

/-- What is still to be noted down of a client whose chain has come to some stage. -/
def Stage.Transcript (crew : Crew n) (i : Fin n) :
    Stage κ → Except Fault κ.Answer → List (Event n) → Prop
  | .ready c, r, l => c.Transcript crew i r l
  | .calling c _ _ next, r, l =>
    ∀ t, (Chain.call c next).Transcript crew i r (.made t i c false :: l)
  | .resting _ next, r, l => next.Transcript crew i r l
  | .queued next, r, l => next.Transcript crew i r l
  | .ended r', r, l => r = r' ∧ l = []

/-! ### One member -/

namespace Member

variable {crew : Crew n} {chain : Chain κ} {past : List (Event n)} {v w : World σ n}
  {m : Member n κ}

/-- What has been noted down of a member, after some past, is the beginning of a transcript of its
chain: any transcript of what is left of the chain completes it. -/
def Tells (crew : Crew n) (chain : Chain κ) (past : List (Event n)) (w : World σ n)
    (m : Member n κ) :
    Prop :=
  ∃ l, w.talk m.who = past ++ l ∧
    ∀ r more, m.stage.Transcript crew m.who r more → chain.Transcript crew m.who r (l ++ more)

theorem tells_ready (crew : Crew n) (chain : Chain κ) (w : World σ n) (i : Fin n) :
    Tells crew chain (w.talk i) w ⟨i, .ready chain⟩ :=
  ⟨[], (List.append_nil _).symm, fun _ _ h => h⟩

theorem Tells.congr (h : m.Tells crew chain past w) (hsame : SameFor m.who v w) :
    m.Tells crew chain past v := by
  obtain ⟨l, htalk, hrest⟩ := h
  exact ⟨l, hsame.talk_eq.trans htalk, hrest⟩

/-- Something more is noted down of a member. -/
theorem Tells.noted {i : Fin n} {stage stage' : Stage κ} {e : Event n}
    (h : Tells crew chain past w ⟨i, stage⟩) (htalk : v.talk i = w.talk i ++ [e])
    (hstep : ∀ r more, stage'.Transcript crew i r more → stage.Transcript crew i r (e :: more)) :
    Tells crew chain past v ⟨i, stage'⟩ := by
  obtain ⟨l, hpast, hrest⟩ := h
  refine ⟨l ++ [e], ?_, fun r more hmore => ?_⟩
  · calc v.talk i = w.talk i ++ [e] := htalk
      _ = past ++ l ++ [e] := congrArg (· ++ [e]) hpast
      _ = past ++ (l ++ [e]) := List.append_assoc ..
  · have hwhole := hrest r (e :: more) (hstep r more hmore)
    rwa [List.append_cons] at hwhole

/-- A member goes on without a trace. -/
theorem Tells.silent {i : Fin n} {stage stage' : Stage κ} (h : Tells crew chain past w ⟨i, stage⟩)
    (htalk : v.talk i = w.talk i)
    (hstep : ∀ r more, stage'.Transcript crew i r more → stage.Transcript crew i r more) :
    Tells crew chain past v ⟨i, stage'⟩ := by
  obtain ⟨l, hpast, hrest⟩ := h
  exact ⟨l, htalk.trans hpast, fun r more hmore => hrest r more (hstep r more hmore)⟩

/-- What a member does adds to its transcript. -/
theorem Tells.move [ClientModel σ] (h : m.Tells crew chain past w) :
    (m.move crew w).1.Tells crew chain past (m.move crew w).2 := by
  obtain ⟨i, stage⟩ := m
  have hself : ∀ {ι : AnswerKind} (c : Call ι), (w.call crew i c).2.talk i =
      w.talk i ++ [.made w.now i c false] :=
    fun c => talk_record_self (by simp [Event.concerns])
  -- A turn notes down one event at most, which is the next one of every transcript of
  -- what was left.
  cases stage with
  | ready c =>
    cases c with
    | done a =>
      refine h.silent rfl ?_
      rintro _ _ ⟨rfl, rfl⟩
      exact .done a
    | fail f =>
      refine h.silent rfl ?_
      rintro _ _ ⟨rfl, rfl⟩
      exact .fail f
    | call c next => exact h.noted (hself c) fun r more hmore => hmore w.now
    | rest ms next => exact h.silent rfl fun r more => .rest
    | focus next => exact h.silent rfl fun r more => .focus
    | poll c enough every next => exact h.noted (hself c) fun r more hmore => .poll (hmore w.now)
  | calling c due result next =>
    cases result with
    | ok a =>
      refine h.noted (talk_record_self (by simp [Event.concerns])) fun r more hmore t => ?_
      exact .answered t w.now hmore
    | error e =>
      refine h.noted (e := .failed w.now i c e) (talk_record_self (by simp [Event.concerns])) ?_
      rintro _ _ ⟨rfl, rfl⟩ t
      exact .failed t w.now e
  | resting due next => exact h.silent rfl fun r more => id
  | queued next => exact h.silent rfl fun r more => id
  | ended r => exact h

end Member

/-! ### Groups -/

namespace Group

variable {crew : Crew n} {chain : Chain κ} {clients : List (Fin n)} {w₀ w : World σ n}
  {g : Group n κ} {m : Member n κ} {i : Nat}

/-- What has been noted down of the members of a group since a world are beginnings of transcripts
of one chain. -/
structure Tells (crew : Crew n) (chain : Chain κ) (clients : List (Fin n)) (w₀ w : World σ n)
    (members : List (Member n κ)) : Prop where
  who_eq : members.map Member.who = clients
  tells : ∀ m ∈ members, m.Tells crew chain (w₀.talk m.who) w

theorem tells_start (crew : Crew n) (chain : Chain κ) (clients : List (Fin n)) (w : World σ n) :
    Tells crew chain clients w w (ofChains (clients.map fun i => (i, chain))).members where
  who_eq := by simp [ofChains, Function.comp_def]
  tells m hm := by
    obtain ⟨c, hc, rfl⟩ := List.mem_map.1 hm
    obtain ⟨i, -, rfl⟩ := List.mem_map.1 hc
    exact Member.tells_ready crew chain w i

/-- After a turn, the members are the one that had it and the others, which have other clients. -/
theorem mem_move_split {before after : List (Member n κ)} {m' x : Member n κ}
    (hnodup : ((before ++ m :: after).map Member.who).Nodup) (hx : x ∈ before ++ m' :: after) :
    x = m' ∨ x ∈ before ++ m :: after ∧ x.who ≠ m.who := by
  rw [List.map_append, List.map_cons, List.nodup_middle, List.nodup_cons,
    ← List.map_append] at hnodup
  have hother : ∀ y ∈ before ++ after, y ∈ before ++ m :: after ∧ y.who ≠ m.who := by
    intro y hy
    refine ⟨?_, fun heq => hnodup.1 (heq ▸ List.mem_map_of_mem hy)⟩
    rcases List.mem_append.1 hy with hy | hy <;> simp [hy]
  rcases List.mem_append.1 hx with hx | hx
  · exact .inr (hother x (List.mem_append_left _ hx))
  · rcases List.mem_cons.1 hx with rfl | hx
    · exact .inl rfl
    · exact .inr (hother x (List.mem_append_right _ hx))

/-- A turn adds to the transcript of the member that has it. -/
theorem Tells.move [ClientModel σ] (hnodup : clients.Nodup)
    (h : Tells crew chain clients w₀ w g.members) (hnext : g.next? crew w = some i) :
    Tells crew chain clients w₀ (g.move crew w i).2 (g.move crew w i).1.members := by
  refine ⟨(map_who_move crew w g i).trans h.who_eq, ?_⟩
  obtain ⟨before, m, after, hsplit, rfl, -⟩ := next?_split hnext
  rw [move_split hsplit]
  intro x hx
  have hnodup' : ((before ++ m :: after).map Member.who).Nodup := by
    rw [← hsplit, h.who_eq]
    exact hnodup
  rcases mem_move_split hnodup' hx with rfl | ⟨hmem, hne⟩
  · rw [Member.move_who]
    exact (h.tells m (by simp [hsplit])).move
  · exact (h.tells x (hsplit ▸ hmem)).congr (Member.sameFor_move crew w hne)

/-- A member that has come to its end has left a transcript. -/
theorem Tells.of_ended (h : Tells crew chain clients w₀ w g.members) (hm : m ∈ g.members)
    {r : Except Fault κ.Answer} (hended : m.stage = .ended r) :
    ∃ l, w.talk m.who = w₀.talk m.who ++ l ∧ chain.Transcript crew m.who r l := by
  obtain ⟨l, htalk, hrest⟩ := h.tells m hm
  rw [hended] at hrest
  have hwhole := hrest r [] ⟨rfl, rfl⟩
  rw [List.append_nil] at hwhole
  exact ⟨l, htalk, hwhole⟩

end Group

/-! ### Runs -/

namespace Running

variable [ClientModel σ] {crew : Crew n} {alarm : Alarm} {w w' : World σ n} {g : Group n κ}
  {r' : Running n α} {next : List κ.Answer → Activity n α} {I : World σ n → Group n κ → Prop}

/-- What a small step of a group can be: the group goes on with its results, a member has its turn,
time passes, or it is all over without a result. -/
theorem tick_grouped_cases (crew : Crew n) (alarm : Alarm) (w : World σ n) (g : Group n κ)
    (next : List κ.Answer → Activity n α) :
    (∃ results, g.verdict = some (.ok results) ∧
      tick crew alarm w ⟨[], .grouped g next⟩ = .on w ⟨[], .going (next results)⟩) ∨
    (∃ i, g.next? crew w = some i ∧ tick crew alarm w ⟨[], .grouped g next⟩ =
      .on (g.move crew w i).2 ⟨[], .grouped (g.move crew w i).1 next⟩) ∨
    (∃ t, tick crew alarm w ⟨[], .grouped g next⟩ =
      .on (w.atTime t) ⟨[], .grouped ⟨g.members, 0⟩ next⟩) ∨
    ∃ o, tick crew alarm w ⟨[], .grouped g next⟩ = .halt o ∧ ∀ u y, o ≠ .ended u (.ok y) := by
  -- Unless it is cut off, the group goes on as far as its verdict and its members let it.
  simp only [tick, advance]
  split
  · exact .inr (.inr (.inr ⟨_, rfl, fun u y heq => by cases heq⟩))
  · cases hverdict : g.verdict with
    | some verdict =>
      cases verdict with
      | ok results => exact .inl ⟨results, rfl, rfl⟩
      | error f => exact .inr (.inr (.inr ⟨_, rfl, fun u y heq => by cases heq⟩))
    | none =>
      cases hnext : g.next? crew w with
      | some i => exact .inr (.inl ⟨i, rfl, rfl⟩)
      | none =>
        dsimp only
        split
        · exact .inr (.inr (.inl ⟨_, rfl⟩))
        · exact .inr (.inr (.inr ⟨_, rfl, fun u y heq => by cases heq⟩))
        · exact .inr (.inr (.inr ⟨_, rfl, fun u y heq => by cases heq⟩))
        · exact .inr (.inr (.inr ⟨_, rfl, fun u y heq => by cases heq⟩))

/-- What the turns of a group and the lapse of time preserve holds as long as the group is under
way, and when it has succeeded. -/
theorem Comes.of_grouped
    (hmove : ∀ w g i, I w g → g.next? crew w = some i → I (g.move crew w i).2 (g.move crew w i).1)
    (hwake : ∀ w g t, I w g → I (w.atTime t) ⟨g.members, 0⟩) (hstart : I w g)
    (h : Comes crew alarm w ⟨[], .grouped g next⟩ w' r') :
    (∃ g', I w' g' ∧ r' = ⟨[], .grouped g' next⟩) ∨
      ∃ w₁ g₁ results, I w₁ g₁ ∧ g₁.verdict = some (.ok results) ∧
        Comes crew alarm w₁ ⟨[], .going (next results)⟩ w' r' := by
  -- The induction is on the ticks; once the group has succeeded, its last state is kept in mind.
  induction h with
  | start => exact .inl ⟨g, hstart, rfl⟩
  | @tick w' _ _ _ _ htick ih =>
    rcases ih with ⟨g', hinv, rfl⟩ | ⟨w₁, g₁, results, hinv, hverdict, hcomes⟩
    · rcases tick_grouped_cases crew alarm w' g' next with
        ⟨results, hverdict, hon⟩ | ⟨i, hnext, hon⟩ | ⟨t, hon⟩ | ⟨o, hhalt, -⟩
      · cases htick.symm.trans hon
        exact .inr ⟨_, g', results, hinv, hverdict, .start⟩
      · cases htick.symm.trans hon
        exact .inl ⟨_, hmove _ g' i hinv hnext, rfl⟩
      · cases htick.symm.trans hon
        exact .inl ⟨_, hwake _ g' t hinv, rfl⟩
      · cases htick.symm.trans hhalt
    · exact .inr ⟨w₁, g₁, results, hinv, hverdict, hcomes.tick htick⟩

end Running

end BotScript
