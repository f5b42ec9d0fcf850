import BotScript.Proofs.Activity.Calls
import BotScript.Proofs.Activity.Lasting

/-!
# Activities that come to an end

An activity with clients that answer every call comes to its end, if it does not ask again and again
for an answer that is good enough. What may keep it is the input focus. A client that waits for it
gets it once those who have claimed it before are done, and these go on by themselves, unless they
do not belong to the activity.

## Main definitions

* `Responsive`: a client answers every call, sooner or later.
* `Chain.Within`: a chain is over after so many moves, and may wait for the input focus
  only if that is allowed.
* `Group.InLine`: whoever waits for the focus has claimed it, and nobody has who will
  not give it up.
* `Activity.Brief`: an activity made of such chains, calls, pauses and actions that are
  started together.

## Main results

* `Group.Within.exists_verdict`: a group of such chains comes to a verdict.
* `Activity.Brief.halts`: an activity of this kind comes to its end.
-/

namespace BotScript

open World

variable {σ : Type} {n : Nat} {κ : AnswerKind} {α β : Type}

/-! ### Clients that answer -/

section Responsive

variable [ClientModel σ]

/-- A client answers every call, sooner or later, whatever it has been asked before. -/
def Responsive (s : σ) : Prop :=
  ∃ good : σ → Prop, good s ∧ ∀ s, good s → ∀ (t : Nat) (κ : AnswerKind) (c : Call κ),
    (ClientModel.reply t c s).1.delay ≠ none ∧ good (ClientModel.reply t c s).2

theorem Responsive.reply {s : σ} (h : Responsive s) (t : Nat) (c : Call κ) :
    (ClientModel.reply t c s).1.delay ≠ none ∧ Responsive (ClientModel.reply t c s).2 := by
  obtain ⟨good, hs, hgood⟩ := h
  exact ⟨(hgood s hs t κ c).1, good, (hgood s hs t κ c).2, hgood⟩

namespace World

variable {crew : Crew n} {v w : World σ n}

/-- All clients answer every call. -/
def Responsive (w : World σ n) : Prop := ∀ i, BotScript.Responsive (w.clients.get i)

/-- A call that is made comes to its end. -/
theorem Responsive.exists_delay (h : w.Responsive) (crew : Crew n) (i : Fin n) (c : Call κ) :
    ∃ ms, (w.call crew i c).1.delay = some ms :=
  Option.ne_none_iff_exists'.mp ((h i).reply w.now c).1

theorem Responsive.call (h : w.Responsive) (crew : Crew n) (i : Fin n) (c : Call κ) :
    (w.call crew i c).2.Responsive := by
  intro j
  by_cases hj : j = i
  · subst hj
    have hstate : (w.call crew j c).2.clients.get j =
        (ClientModel.reply w.now c (w.clients.get j)).2 :=
      Vector.getElem_set_self j.isLt
    rw [hstate]
    exact ((h j).reply w.now c).2
  · have hother : Agrees crew j (w.call crew i c).2 w := agrees_call hj w c
    rw [hother.client]
    exact h j

/-- Dealings with clients do not keep them from answering. -/
theorem Dealt.responsive (h : Dealt crew w v) (hw : w.Responsive) : v.Responsive := by
  induction h with
  | start => exact hw
  | call _ i c ih => exact ih.call crew i c
  | ends _ _ ih | atTime _ _ ih | claim _ _ ih | release _ _ ih => exact ih

end World

theorem Running.Comes.dealt {crew : Crew n} {alarm : Alarm} {w w' : World σ n} {r r' : Running n α}
    (h : Comes crew alarm w r w' r') : Dealt crew w w' := by
  induction h with
  | start => exact .start
  | @tick w₁ w₂ r₁ r₂ _ htick ih =>
    have hdealt := tick_dealt crew alarm w₁ r₁
    rw [htick] at hdealt
    exact ih.trans hdealt

end Responsive

/-! ### Chains -/

/-- A chain is over after at most so many moves of its member, if its calls come to their ends.
Whether it may wait for the input focus on the way is laid down. -/
inductive Chain.Within (queues : Prop) : Chain κ → Nat → Prop
  | done {a : κ.Answer} {k : Nat} : Within queues (.done a) (k + 1)
  | fail {f : Fault} {k : Nat} : Within queues (.fail f) (k + 1)
  | call {ι : AnswerKind} {c : Call ι} {next : ι.Answer → Chain κ} {k : Nat}
      (h : ∀ a, (next a).Within queues k) : Within queues (.call c next) (k + 2)
  | rest {ms : Nat} {next : Chain κ} {k : Nat} (h : next.Within queues k) :
      Within queues (.rest ms next) (k + 2)
  | focus {next : Chain κ} {k : Nat} (hqueues : queues) (h : next.Within queues k) :
      Within queues (.focus next) (k + 2)

/-- A chain on its way is over after at most so many moves, and what it waits for comes. -/
inductive Stage.Within (queues : Prop) : Stage κ → Nat → Prop
  | ready {c : Chain κ} {k : Nat} (h : c.Within queues k) : Within queues (.ready c) k
  | calling {ι : AnswerKind} {c : Call ι} {due : Nat} {result : Except ClientError ι.Answer}
      {next : ι.Answer → Chain κ} {k : Nat} (h : ∀ a, (next a).Within queues k) :
      Within queues (.calling c (some due) result next) (k + 1)
  | resting {due : Nat} {next : Chain κ} {k : Nat} (h : next.Within queues k) :
      Within queues (.resting due next) (k + 1)
  | queued {next : Chain κ} {k : Nat} (hqueues : queues) (h : next.Within queues k) :
      Within queues (.queued next) (k + 1)
  | ended {r : Except Fault κ.Answer} {k : Nat} : Within queues (.ended r) k

variable {queues : Prop} {k : Nat}

/-- A member that moves has less left to do. -/
theorem Stage.Within.move [ClientModel σ] {crew : Crew n} {w : World σ n} {m : Member n κ}
    (h : m.stage.Within queues k) (hw : w.Responsive) (hmove : m.canMove crew w = true) :
    ∃ j < k, (m.move crew w).1.stage.Within queues j := by
  obtain ⟨who, stage⟩ := m
  cases h with
  | ready h =>
    cases h with
    | done | fail => exact ⟨0, Nat.zero_lt_succ _, .ended⟩
    | @call ι c next k h =>
      obtain ⟨ms, hms⟩ := hw.exists_delay crew who c
      refine ⟨k + 1, Nat.lt_succ_self _, ?_⟩
      simp only [Member.move, Member.call, Reply.due, hms, Option.map_some]
      exact .calling h
    | rest h => exact ⟨_, Nat.lt_succ_self _, .resting h⟩
    | focus hqueues h => exact ⟨_, Nat.lt_succ_self _, .queued hqueues h⟩
  | @calling ι c due result next k h =>
    -- The answer leads on, whatever it is; a refusal is the end.
    cases result with
    | ok a => exact ⟨k, Nat.lt_succ_self k, .ready (h a)⟩
    | error e => exact ⟨0, Nat.zero_lt_succ k, .ended⟩
  | resting h | queued _ h => exact ⟨_, Nat.lt_succ_self _, .ready h⟩
  | ended => cases hmove

/-- A member that begins to wait for the focus claims it. -/
theorem Member.mem_claims_of_queued [ClientModel σ] {crew : Crew n} {w : World σ n} {m : Member n κ}
    {next : Chain κ} (h : (m.move crew w).1.stage = .queued next) :
    m.who ∈ (m.move crew w).2.claims := by
  obtain ⟨who, stage⟩ := m
  cases stage with
  | ready c =>
    cases c with
    | focus next => exact List.mem_append_right _ List.mem_cons_self
    | done | fail | call | rest | poll => cases h
  | calling c due result next => cases result <;> cases h
  | resting | queued | ended => cases h

/-! ### Groups -/

namespace Group

variable {crew : Crew n} {w : World σ n} {members : List (Member n κ)} {g : Group n κ}

/-- The members of a group have at most so many moves left, all together. -/
inductive Within (queues : Prop) : List (Member n κ) → Nat → Prop
  | nil {k : Nat} : Within queues [] k
  | cons {m : Member n κ} {rest : List (Member n κ)} {j k : Nat} (hm : m.stage.Within queues j)
      (hrest : Within queues rest k) : Within queues (m :: rest) (j + k)

theorem Within.of_mem (h : Within queues members k) {m : Member n κ} (hm : m ∈ members) :
    ∃ j, m.stage.Within queues j := by
  induction h with
  | nil => cases hm
  | cons hfirst _ ih =>
    rcases List.mem_cons.mp hm with rfl | hm
    · exact ⟨_, hfirst⟩
    · exact ih hm

theorem exists_within (h : ∀ m ∈ members, ∃ j, m.stage.Within queues j) :
    ∃ k, Within queues members k := by
  induction members with
  | nil => exact ⟨0, .nil⟩
  | cons m rest ih =>
    rw [List.forall_mem_cons] at h
    obtain ⟨⟨j, hm⟩, hrest⟩ := h
    obtain ⟨k, hrest⟩ := ih hrest
    exact ⟨j + k, .cons hm hrest⟩

/-- One of the members has less left to do, and the others as much as before. -/
theorem Within.replace {before after : List (Member n κ)} {m m' : Member n κ}
    (h : Within queues (before ++ m :: after) k)
    (hless : ∀ j, m.stage.Within queues j → ∃ j' < j, m'.stage.Within queues j') :
    ∃ k' < k, Within queues (before ++ m' :: after) k' := by
  induction before generalizing k with
  | nil =>
    cases h with
    | @cons _ _ j l hm hrest =>
      obtain ⟨j', hj', hm'⟩ := hless j hm
      exact ⟨j' + l, by omega, .cons hm' hrest⟩
  | cons first before ih =>
    cases h with
    | @cons _ _ j l hfirst hrest =>
      obtain ⟨l', hl', hrest'⟩ := ih hrest
      exact ⟨j + l', by omega, .cons hfirst hrest'⟩

theorem Within.move [ClientModel σ] {i : Nat} (h : Within queues g.members k) (hw : w.Responsive)
    (hnext : g.next? crew w = some i) : ∃ j < k, Within queues (g.move crew w i).1.members j := by
  obtain ⟨before, m, after, hsplit, rfl, hmove⟩ := next?_split hnext
  rw [hsplit] at h
  rw [move_split hsplit]
  exact h.replace fun j hm => hm.move hw hmove

/-- Nobody claims the focus but members that will give it up, and every member that
waits for it has claimed it. -/
structure InLine (w : World σ n) (members : List (Member n κ)) : Prop where
  distinct : (members.map Member.who).Nodup
  waiting : ∀ m ∈ members, ∀ next, m.stage = .queued next → m.who ∈ w.claims
  claiming : ∀ i ∈ w.claims, ∃ m ∈ members, m.who = i ∧ ∀ r, ¬ m.Ended r

theorem InLine.move [ClientModel σ] {i : Nat} (h : InLine w g.members)
    (hnext : g.next? crew w = some i) :
    InLine (g.move crew w i).2 (g.move crew w i).1.members := by
  have hdistinct : ((g.move crew w i).1.members.map Member.who).Nodup := by
    rw [map_who_move]
    exact h.distinct
  -- Seen from a world without claims, all claims are those of members that will give them up.
  have howes : Owes { w with claims := [] } w g.members := fun j hj => .inr (h.claiming j hj)
  refine ⟨hdistinct, ?_, fun j hj => (howes.move hnext j hj).resolve_left nofun⟩
  obtain ⟨before, m, after, hsplit, rfl, -⟩ := next?_split hnext
  -- The claim of a member is not given up by the move of another one, as each client is
  -- only one of them.
  have hothers := h.distinct
  rw [hsplit, List.map_append, List.map_cons, List.nodup_middle, List.nodup_cons,
    ← List.map_append] at hothers
  rw [move_split hsplit]
  intro x hx next hqueued
  rcases List.mem_cons.1 (List.perm_middle.mem_iff.1 hx) with rfl | hx
  · rw [Member.move_who]
    exact Member.mem_claims_of_queued hqueued
  · have hmem : x ∈ g.members := by
      rw [hsplit]
      exact List.perm_middle.mem_iff.2 (List.mem_cons_of_mem m hx)
    have hne : x.who ≠ m.who := fun heq => hothers.1 (heq ▸ List.mem_map_of_mem hx)
    have hclaimed := h.waiting x hmem next hqueued
    rcases m.move_claims crew w with hclaims | hclaims | hclaims <;> rw [hclaims]
    · exact hclaimed
    · exact List.mem_append_left _ hclaimed
    · simpa [World.release, hne] using hclaimed

/-- A group without a verdict has a member that has not come to its end. -/
theorem exists_not_ended (h : g.verdict = none) : ∃ m ∈ g.members, ∀ r, ¬ m.Ended r := by
  have hcollect : collect g.members = none := by
    unfold verdict at h
    split at h
    · split at h
      · cases h
      · exact h
    · exact h
  generalize g.members = members at hcollect
  induction members with
  | nil => cases hcollect
  | cons m rest ih =>
    rcases collect_cons m rest with ⟨f, -, hfailed⟩ | ⟨a, -, hended⟩ | ⟨hopen, -⟩
    · cases hcollect.symm.trans hfailed
    · obtain ⟨x, hx, hopen⟩ := ih (Option.map_eq_none_iff.1 (hended.symm.trans hcollect))
      exact ⟨x, List.mem_cons_of_mem m hx, hopen⟩
    · exact ⟨m, List.mem_cons_self, hopen⟩

/-- As long as a group has no verdict, somebody can go on, now or later, if those who wait for the
focus are in line. -/
theorem Within.exists_wakeAt (h : Within queues g.members k) (hline : queues → InLine w g.members)
    (hverdict : g.verdict = none) (hnext : g.next? crew w = none) : ∃ t, g.wakeAt = some t := by
  refine Option.ne_none_iff_exists'.1 fun hnever => ?_
  -- Whoever has not come to its end waits for the focus, and does not have it.
  have hqueued : ∀ m ∈ g.members, (∀ r, ¬ m.Ended r) →
      queues ∧ (∃ next, m.stage = .queued next) ∧ w.hasFocus crew m.who = false := by
    intro m hm hopen
    obtain ⟨j, hj⟩ := List.mem_iff_getElem?.1 hm
    have hcannot := next?_eq_none hnext hj
    have hwake := wakeAt_eq_none hnever hm
    obtain ⟨l, hstage⟩ := h.of_mem hm
    obtain ⟨who, stage⟩ := m
    cases hstage with
    | ready => cases hcannot
    | calling | resting => cases hwake
    | @queued next _ hqueues => exact ⟨hqueues, ⟨next, rfl⟩, hcannot⟩
    | @ended r => exact (hopen r rfl).elim
  obtain ⟨m, hm, hopen⟩ := exists_not_ended hverdict
  obtain ⟨hqueues, ⟨next, hstage⟩, -⟩ := hqueued m hm hopen
  have hclaims := (hline hqueues).waiting m hm next hstage
  -- The first of those who claim its focus has it.
  obtain ⟨j, hj⟩ : ∃ j, w.claims.find? (crew.sameFocus m.who) = some j := by
    rw [← Option.isSome_iff_exists, List.find?_isSome]
    exact ⟨m.who, hclaims, crew.sameFocus_self m.who⟩
  obtain ⟨x, hx, rfl, hxopen⟩ := (hline hqueues).claiming j (List.mem_of_find?_eq_some hj)
  have hsame : crew.sameFocus m.who = crew.sameFocus x.who :=
    funext (Crew.sameFocus_congr (List.find?_some hj))
  have hfocus : w.hasFocus crew x.who = true := by
    rw [hasFocus, ← hsame, hj, beq_self_eq_true]
  rw [(hqueued x hx hxopen).2.2] at hfocus
  cases hfocus

variable [ClientModel σ]

/-- A group whose members have so many moves left comes to a verdict. -/
theorem Within.exists_verdict (h : Within queues g.members k) (hline : queues → InLine w g.members)
    (hw : w.Responsive) (crew : Crew n) (next : List κ.Answer → Activity n α) :
    ∃ w' g' verdict, Running.Comes crew ⟨none, none⟩ w ⟨[], .grouped g next⟩ w'
      ⟨[], .grouped g' next⟩ ∧ g'.verdict = some verdict := by
  -- The number of moves that are left goes down with every move. Time passes at most
  -- once in between.
  induction k using Nat.strongRecOn generalizing w g with
  | ind k ih =>
    have hmoved : ∀ (v : World σ n) (g₁ : Group n κ) i, g₁.verdict = none →
        g₁.next? crew v = some i →
        Within queues g₁.members k → (queues → InLine v g₁.members) → v.Responsive →
        ∃ w' g' verdict, Running.Comes crew ⟨none, none⟩ v ⟨[], .grouped g₁ next⟩ w'
        ⟨[], .grouped g' next⟩ ∧
          g'.verdict = some verdict := by
      intro v g₁ i hverdict hnext hwithin hline hv
      obtain ⟨j, hj, hless⟩ := hwithin.move hv hnext
      obtain ⟨w', g', verdict, hcomes, hfound⟩ :=
        ih j hj hless (fun hqueues => (hline hqueues).move hnext)
        ((g₁.move_dealt crew v i).responsive hv)
      exact ⟨w', g', verdict, hcomes.head (tick_of_next hverdict hnext), hfound⟩
    cases hverdict : g.verdict with
    | some verdict => exact ⟨w, g, verdict, .start, hverdict⟩
    | none =>
      cases hnext : g.next? crew w with
      | some i => exact hmoved w g i hverdict hnext h hline hw
      | none =>
        obtain ⟨t, ht⟩ := h.exists_wakeAt hline hverdict hnext
        obtain ⟨⟨m, hm, hwake⟩, -⟩ := wakeAt_eq_some ht
        -- By then the member that has waited for the time can go on.
        have hthen : ∃ i, next? crew (w.atTime t) ⟨g.members, 0⟩ = some i := by
          refine Option.ne_none_iff_exists'.1 fun hnone => ?_
          obtain ⟨j, hj⟩ := List.mem_iff_getElem?.1 hm
          have hcannot := next?_eq_none hnone hj
          rw [Member.canMove_of_wakeAt hwake] at hcannot
          exact of_decide_eq_false hcannot (Nat.le_max_right _ _)
        obtain ⟨i, hi⟩ := hthen
        have hline' : queues → InLine (w.atTime t) g.members := fun hqueues =>
          ⟨(hline hqueues).distinct, (hline hqueues).waiting, (hline hqueues).claiming⟩
        obtain ⟨w', g', verdict, hcomes, hfound⟩ :=
          hmoved (w.atTime t) ⟨g.members, 0⟩ i hverdict hi h hline' hw
        exact ⟨w', g', verdict, hcomes.head (tick_of_wakeAt hverdict hnext ht), hfound⟩

end Group

/-! ### Activities -/

namespace Running

variable [ClientModel σ] {crew : Crew n} {w w' : World σ n} {r r' : Running n α}

/-- An activity on its way comes to its end, with a result or a fault. -/
def Halts (crew : Crew n) (w : World σ n) (r : Running n α) : Prop :=
  ∃ w' r' u result, Comes crew ⟨none, none⟩ w r w' r' ∧
    r'.tick crew ⟨none, none⟩ w' = .halt (.ended u result)

theorem Comes.halts (hcomes : Comes crew ⟨none, none⟩ w r w' r') (h : r'.Halts crew w') :
    r.Halts crew w := by
  obtain ⟨w₁, r₁, u, result, hrest, hhalt⟩ := h
  exact ⟨w₁, r₁, u, result, hcomes.trans hrest, hhalt⟩

end Running

/-- A group whose members have so many moves left comes to its end, if what follows does. -/
theorem Group.Within.halts [ClientModel σ] {crew : Crew n} {w : World σ n} {g : Group n κ}
    (h : Within queues g.members k) (hline : queues → InLine w g.members) (hw : w.Responsive)
    {next : List κ.Answer → Activity n α}
    (hnext : ∀ w' results, Running.Comes crew ⟨none, none⟩ w ⟨[], .grouped g next⟩ w'
      ⟨[], .going (next results)⟩ → (⟨[], .going (next results)⟩ : Running n α).Halts crew w') :
    (⟨[], .grouped g next⟩ : Running n α).Halts crew w := by
  obtain ⟨w', g', verdict, hcomes, hverdict⟩ := h.exists_verdict hline hw crew next
  cases verdict with
  | ok results =>
    have hgoes := hcomes.tick (tick_of_succeeded hverdict)
    exact hgoes.halts (hnext w' results hgoes)
  | error f => exact ⟨w', _, _, _, hcomes, tick_of_failed hverdict⟩

namespace Activity

/-- An activity asks, pauses, starts actions together and waits for them, or has clients go through
chains that are over after so many moves; each client goes through one chain of a group at most. -/
inductive Brief (queues : Prop) : Activity n α → Prop
  | done (x : α) : Brief queues (.done x)
  | fail (f : Fault) : Brief queues (.fail f)
  | ask {i : Fin n} {ι : AnswerKind} {c : Call ι} {next : ι.Answer → Activity n α}
      (h : ∀ a, (next a).Brief queues) : Brief queues (.ask i c next)
  | pause {ms : Nat} {next : Activity n α} (h : next.Brief queues) : Brief queues (.pause ms next)
  | launchAll {c : Call .nothing} {clients : List (Fin n)} {next : Activity n α}
      (h : next.Brief queues) :
      Brief queues (launchAll c next clients)
  | gather {ι : AnswerKind} {chains : List (Fin n × Chain ι)} {next : List ι.Answer → Activity n α}
      (hdistinct : (chains.map Prod.fst).Nodup) (hchains : ∀ c ∈ chains, ∃ k, c.2.Within queues k)
      (h : ∀ as, (next as).Brief queues) : Brief queues (.gather chains next)

variable {queues : Prop}

theorem launchAll_bind (c : Call .nothing) (next : Activity n α) (clients : List (Fin n))
    (f : α → Activity n β) :
    (launchAll c next clients).bind f = launchAll c (next.bind f) clients := by
  induction clients with
  | nil => rfl
  | cons i rest ih => exact congrArg (launch i c) ih

theorem Brief.bind {a : Activity n α} {f : α → Activity n β} (ha : a.Brief queues)
    (hf : ∀ x, (f x).Brief queues) : (a.bind f).Brief queues := by
  induction ha with
  | done x => exact hf x
  | fail e => exact .fail e
  | ask _ ih => exact .ask ih
  | pause _ ih => exact .pause ih
  | launchAll _ ih =>
    rw [launchAll_bind]
    exact .launchAll ih
  | gather hdistinct hchains _ ih => exact .gather hdistinct hchains ih

theorem Asks.brief {a : Activity n α} (h : a.Asks) : a.Brief queues := by
  induction a with
  | done x => exact .done x
  | fail f => exact .fail f
  | ask who c next ih => exact .ask fun x => ih x (h.2 x)
  | pause | launch | join | gather => exact h.elim

/-- An activity of this kind comes to its end with clients that answer every call, if nobody claims
the input focus before or it is not waited for. -/
theorem Brief.halts [ClientModel σ] {a : Activity n α} (h : a.Brief queues) (crew : Crew n)
    {w : World σ n} (hw : w.Responsive) (hfree : queues → w.claims = []) :
    (⟨[], .going a⟩ : Running n α).Halts crew w := by
  induction h generalizing w with
  | done x => exact ⟨w, _, _, .ok x, .start, rfl⟩
  | fail f => exact ⟨w, _, _, .error f, .start, rfl⟩
  | @ask i ι c next _ ih =>
    obtain ⟨ms, hms⟩ := hw.exists_delay crew i c
    have hreply : (w.call crew i c).1 = ⟨some ms, (w.call crew i c).1.result⟩ := by rw [← hms]
    have hcomes := Running.comes_ask w hreply next
    have hdue : w.now + ms ≤ ((w.call crew i c).2.atTime (w.now + ms)).now := Nat.le_max_right _ _
    cases hresult : (w.call crew i c).1.result with
    | error e =>
      -- A refused call is a fault of the activity.
      rw [hresult] at hcomes
      exact ⟨_, _, _, _, hcomes, Running.tick_of_refused hdue⟩
    | ok x =>
      rw [hresult] at hcomes
      have hgoes := hcomes.tick (Running.tick_of_answered hdue)
      exact hgoes.halts (ih x (hgoes.dealt.responsive hw) hfree)
  | @pause ms next _ ih =>
    have hsleep : (Activity.sleep ms).Finishes crew w (fun _ _ => False) fun w' _ =>
        w'.now = w.now + ms :=
      finishes_sleep ms
    obtain ⟨w', result, hcomes, hmeets⟩ := hsleep
    cases result with
    | error f => exact hmeets.elim
    | ok x =>
      have hgoes : Running.Comes crew ⟨none, none⟩ w ⟨[], .going (.pause ms next)⟩ w'
          ⟨[], .going next⟩ :=
        hcomes.andThen fun _ => next
      exact hgoes.halts (ih (hgoes.dealt.responsive hw) fun hqueues =>
        hgoes.claims_eq_nil (hfree hqueues))
  | @launchAll c clients next _ ih =>
    obtain ⟨w', members, hlaunched, -, hmembers⟩ := Running.comes_launchAll crew c next clients [] w
    -- Nobody of those who have been called waits for the focus.
    have hwithin : ∀ m ∈ members, ∃ k, m.stage.Within False k := by
      intro m hm
      obtain ⟨i, v, hdealt, -, rfl⟩ := exists_of_forall₂ hmembers.flip hm
      obtain ⟨ms, hms⟩ := (hdealt.responsive hw).exists_delay crew i c
      simp only [Reply.due, hms, Option.map_some]
      exact ⟨2, .calling fun _ => .done⟩
    obtain ⟨k, hwithin⟩ := Group.exists_within hwithin
    refine hlaunched.halts
      (hwithin.halts False.elim (hlaunched.dealt.responsive hw) fun w₁ results hcomes => ?_)
    have hgoes := hlaunched.trans hcomes
    exact ih (hgoes.dealt.responsive hw) fun hqueues => hgoes.claims_eq_nil (hfree hqueues)
  | @gather ι chains next hdistinct hchains _ ih =>
    have hgathers : Running.Comes crew ⟨none, none⟩ w ⟨[], .going (.gather chains next)⟩ w
        ⟨[], .grouped (Group.ofChains chains) next⟩ := .tick .start rfl
    have hmember : ∀ m ∈ (Group.ofChains chains).members, ∃ c ∈ chains, m = ⟨c.1, .ready c.2⟩ := by
      intro m hm
      obtain ⟨c, hc, rfl⟩ := List.mem_map.1 hm
      exact ⟨c, hc, rfl⟩
    have hwithin : ∀ m ∈ (Group.ofChains chains).members, ∃ k, m.stage.Within queues k := by
      intro m hm
      obtain ⟨c, hc, rfl⟩ := hmember m hm
      obtain ⟨k, hk⟩ := hchains c hc
      exact ⟨k, .ready hk⟩
    -- The line is empty at first: nobody waits for the focus yet, and nobody claims it.
    have hline : queues → Group.InLine w (Group.ofChains chains).members := by
      intro hqueues
      refine ⟨?_, fun m hm later hstage => ?_, ?_⟩
      · rwa [Group.ofChains, List.map_map]
      · obtain ⟨c, -, rfl⟩ := hmember m hm
        cases hstage
      · rw [hfree hqueues]
        rintro i ⟨⟩
    obtain ⟨k, hwithin⟩ := Group.exists_within hwithin
    refine hgathers.halts (hwithin.halts hline hw fun w₁ results hcomes => ?_)
    have hgoes := hgathers.trans hcomes
    exact ih results (hgoes.dealt.responsive hw) fun hqueues => hgoes.claims_eq_nil (hfree hqueues)

end Activity

end BotScript
