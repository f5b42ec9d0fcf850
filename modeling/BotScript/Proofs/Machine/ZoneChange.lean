import BotScript.Proofs.Activity.Zones
import BotScript.Proofs.Machine.Waiting

/-!
# Waiting for a change of zones

An instruction that waits for a change of zones goes through phases. First the selected clients tell
the zones they are in, one after the other. Then each of them is asked for its zone until it has
left the one it was in. With `completion`, when the last of them has left, each is asked until it is
no longer loading. No phase begins before everyone has come to the end of the one before it, so a
failure is the end of the wait, except that in a large group it has to wait for the clients before
it.

## Main definitions

* `Poll`: what some clients are asked again and again, side by side.
* `Poll.inquiry`: the inquiry that this is for a client in a world.
* `ZoneChange.Begins`: the polls of a wait, and when they begin.
* `ZoneChange.Course`, `ZoneChange.Result`: how far a wait has come, and how a step that waits ends.
* `ZoneChange.InOrder`: only zones are asked for before everyone has left.

## Main results

* `ZoneChange.Stage.result`: every step that waits ends in one of these ways.
* `Poll.leads`: what a poll leads to.
* `Machine.zone_change_in_phases`: what an instruction that waits for a change of zones does.
-/

namespace BotScript

open World Cast

variable {σ : Type} {n : Nat} {ι κ : AnswerKind} {α : Type} [ClientModel σ]

/-! ### Polls -/

/-- What some clients are asked again and again, side by side, each until an answer meets its own
condition. -/
structure Poll (n : Nat) (ι : AnswerKind) where
  call : Call ι
  test : Fin n → ι.Answer → Bool

namespace Poll

/-- Clients are asked until they have left the zones they were in. -/
def leaving (start : Fin n → String) : Poll n .text := ⟨.zone, fun i zone => zone != start i⟩

/-- Clients are asked until they are no longer loading. -/
def loading : Poll n .truth := ⟨.isLoading, fun _ loading => !loading⟩

variable (p : Poll n ι) (every : Nat) (clients : List (Fin n)) (w : World σ n)

/-- A client in a world is about to be asked for the first time. -/
def first (i : Fin n) : Inquiry.Moment ι σ := ⟨w.now, [p.test i], w.clients.get i⟩

/-- The inquiry that a client goes through if the poll begins in a world. -/
def inquiry (i : Fin n) : Inquiry ι := .ofClient p.call every (p.first w i)

/-- The states that the client goes through. -/
def state (i : Fin n) (k : Nat) : σ := (Inquiry.moment p.call every (p.first w i) k).client

/-- The poll has begun in a world, and is under way. -/
abbrev Underway (v : World σ n) : Prop := Inquiry.Underway (p.inquiry every w) clients w v

/-- The poll has begun in a world, and everyone has come to a good end. -/
abbrev Completed (v : World σ n) : Prop :=
  Inquiry.Completed (p.inquiry every w) (p.state every w) clients w v

/-- Everyone has been asked up to the question of a number, and no further. -/
structure Asked (last : Fin n → Nat) (v : World σ n) : Prop where
  completed : p.Completed every clients w v
  talk_eq : ∀ i ∈ clients, v.talk i = w.talk i ++ (p.inquiry every w i).heard i (last i + 1)

/-- What a poll that begins in a world, in the course of a step that began in another
one, leads to. -/
structure Leads (crew : Crew n) (m : Machine) (w₀ : World σ n) (next : World σ n → Prop) :
    Prop where
  /-- If everyone gives an answer that meets its condition, each client is asked exactly up to the
  first one that does, and something follows. -/
  passes : ∀ last : Fin n → Nat, (∀ i ∈ clients, (p.inquiry every w i).First (p.test i) (last i)) →
    ∃ v, p.Asked every clients w last v ∧ next v
  /-- If nobody fails and unwanted answers are followed by rests, each client is asked as long as it
  has to be, also if another one never comes to an end. -/
  hears : 0 < every → (∀ i ∈ clients, ∀ k e, ¬ (p.inquiry every w i).Fails k e) →
    ∀ i ∈ clients, ∀ k, (p.inquiry every w i).Reaches k → ∃ least, ∀ fuel ≥ least,
      w.talk i ++ (p.inquiry every w i).heard i k <+:
      (m.step crew every ⟨none, none⟩ fuel w₀).2.1.talk i
  /-- A large group fails with the first client, by its place, that does, if all before
  it come to a good end. -/
  fails_first : Group.smallSize < clients.length → 0 < every → ∀ front i back k e,
    clients = front ++ i :: back → (∀ j ∈ front, ∃ l, (p.inquiry every w j).Ends l) →
    (p.inquiry every w i).Fails k e →
    ∃ fuel u, m.step crew every ⟨none, none⟩ fuel w₀ = (.failed (.client (crew.title i) e), u, m)

variable {p every clients w}

theorem begin_inquiry (hnodup : clients.Nodup) :
    Inquiry.Begin (p.inquiry every w) (p.state every w) clients w where
  nodup := hnodup
  serves _ _ := Inquiry.ofClient_serves _ _ _
  now_eq _ _ := rfl
  client _ _ := rfl

/-- What a step that comes to a poll leads to. -/
theorem leads {crew : Crew n} {m : Machine} {i : Instruction} {w₀ : World σ n}
    (hrunning : m.running = true)
    (hi : m.instruction? = some i) (hnodup : clients.Nodup) {after : World σ n → Prop}
    {next : List AnswerKind.nothing.Answer → Activity n Effect}
    (hcomes : Running.Comes crew ⟨none, none⟩ w₀ (.ofActivity (m.plan crew every i)) w
      ⟨[], .going (.gather (Inquiry.chains (p.inquiry every w) clients) next)⟩)
    (hafter : ∀ v results, Running.Comes crew ⟨none, none⟩ w₀ (.ofActivity (m.plan crew every i)) v
      ⟨[], .going (next results)⟩ → after v) :
    p.Leads every clients w crew m w₀ after where
  passes last hlast := by
    have hends : ∀ i ∈ clients, (p.inquiry every w i).Ends (last i + 1) := fun i hi =>
      (Inquiry.ends_iff_first rfl).2 ⟨last i, rfl, hlast i hi⟩
    obtain ⟨v, results, hcompleted, hpassed⟩ :=
      (begin_inquiry hnodup).completes crew (fun i hi => ⟨_, hends i hi⟩) next
    exact ⟨v, ⟨hcompleted, fun i hi => hcompleted.talk_eq hi (hends i hi)⟩,
      hafter v results (hcomes.trans hpassed)⟩
  hears hevery hfails j hj k hreaches := by
    obtain ⟨w', r', hheard, htalk⟩ :=
      (begin_inquiry hnodup).exists_heard crew (fun _ _ => hevery) hfails hj hreaches next
    obtain ⟨least, hmore⟩ := Machine.exists_step_suffix hrunning hi (hcomes.trans hheard)
    exact ⟨least, fun fuel hle => htalk.trans (talk_isPrefix (hmore fuel hle) j)⟩
  fails_first hlarge hevery front j back k e hclients hfront hfailed := by
    obtain ⟨w', r', u, hbroken, hhalt⟩ :=
      (begin_inquiry hnodup).fails_first crew (fun _ _ => hevery)
      hlarge hclients hfront hfailed next
    obtain ⟨fuel, hstep⟩ := Machine.exists_step_of_halt hrunning hi (hcomes.trans hbroken) hhalt
    exact ⟨fuel, u, hstep⟩

end Poll

/-! ### The course of a wait -/

namespace ZoneChange

section

variable (crew : Crew n) (every : Nat) (completion : Bool) (clients : List (Fin n)) (w : World σ n)

/-- When the polls of a wait that began in a world begin: the first one when all zones have been
told, and the other one, with `completion`, when everyone has left. The wait is over after the last
one. -/
inductive Begins : Bool → {ι : AnswerKind} → Poll n ι → World σ n → Prop
  | leaving {start : Fin n → String} {w₁ : World σ n} (hread : ReadsZones crew start clients w w₁) :
      Begins (!completion) (.leaving start) w₁
  | loading {start : Fin n → String} {w₁ w₂ : World σ n} (hcompletion : completion = true)
      (hread : ReadsZones crew start clients w w₁)
      (hleft : (Poll.leaving start).Completed every clients w₁ w₂) : Begins true .loading w₂

/-- How far a wait that began in a world has come: the zones of the first clients have been told,
the next client has been asked for its zone, or a poll is under way. -/
inductive Course : World σ n → Prop
  | reads {start : Fin n → String} {front back : List (Fin n)} {v : World σ n}
      (hclients : clients = front ++ back) (hread : ReadsZones crew start front w v) : Course v
  | asks {start : Fin n → String} {front back : List (Fin n)} {i : Fin n} {v : World σ n} {t : Nat}
      (hclients : clients = front ++ i :: back) (hread : ReadsZones crew start front w v)
      (ht : ∀ ms, (v.call crew i .zone).1.delay = some ms → t ≤ v.now + ms) :
      Course ((v.call crew i .zone).2.atTime t)
  | polls {last : Bool} {ι : AnswerKind} {p : Poll n ι} {w₁ v : World σ n}
      (hbegins : Begins crew every completion clients w last p w₁)
      (hunderway : p.Underway every clients w₁ v) : Course v

/-- How a step of a machine that waits may end. -/
inductive Result (m : Machine) : Machine.StepResult × World σ n × Machine → Prop
  | underway {v : World σ n} (hcourse : Course crew every completion clients w v) :
      Result m (.outOfFuel, v, m)
  | stuck {v : World σ n} (hcourse : Course crew every completion clients w v) :
      Result m (.never, v, m)
  | passed {ι : AnswerKind} {p : Poll n ι} {w₁ v : World σ n}
      (hbegins : Begins crew every completion clients w true p w₁)
      (hcompleted : p.Completed every clients w₁ v) : Result m (m.movesOn v)
  /-- A client fails to tell its zone. -/
  | refused {start : Fin n → String} {front back : List (Fin n)} {i : Fin n} {v : World σ n}
      {ms : Nat} {e : ClientError} (hclients : clients = front ++ i :: back)
      (hread : ReadsZones crew start front w v)
      (hreply : (v.call crew i .zone).1 = ⟨some ms, .error e⟩) :
      Result m (.failed (.client (crew.title i) e),
        ((v.call crew i .zone).2.atTime (v.now + ms)).failed i .zone e, m)
  /-- A client fails in a poll. -/
  | failed {last : Bool} {ι : AnswerKind} {p : Poll n ι} {w₁ v u : World σ n} {i : Fin n}
      {e : ClientError} (hbegins : Begins crew every completion clients w last p w₁)
      (hunderway : p.Underway every clients w₁ v)
      (hbreaks : Inquiry.Breaks (p.inquiry every w₁) clients w₁ v i e u) :
      Result m (.failed (.client (crew.title i) e), u, m)

/-- What the activity of a wait may have come to. -/
inductive Stage (m : Machine) : World σ n → Running n Effect → Prop
  | reading {v : World σ n} {r : Running n Effect} (hreading : Reading crew clients w v r) :
      Stage m v r
  | begins {last : Bool} {ι : AnswerKind} {p : Poll n ι} {w₁ : World σ n}
      (hbegins : Begins crew every completion clients w last p w₁)
      (next : List AnswerKind.nothing.Answer → Activity n Effect) :
      Stage m w₁ ⟨[], .going (.gather (Inquiry.chains (p.inquiry every w₁) clients) next)⟩
  | polls {last : Bool} {ι : AnswerKind} {p : Poll n ι} {w₁ v : World σ n} {count : Fin n → Nat}
      {g : Group n .nothing} (hbegins : Begins crew every completion clients w last p w₁)
      (hpolls : Group.Polls crew (p.inquiry every w₁) (p.state every w₁) clients w₁ count v g)
      (next : List AnswerKind.nothing.Answer → Activity n Effect) : Stage m v ⟨[], .grouped g next⟩
  | passed {ι : AnswerKind} {p : Poll n ι} {w₁ v : World σ n}
      (hbegins : Begins crew every completion clients w true p w₁)
      (hcompleted : p.Completed every clients w₁ v) : Stage m v ⟨[], .going (.done ⟨m.next, []⟩)⟩

/-- Everyone has left, without a failure, and whatever has been asked since then is
about loading. -/
inductive Loads : World σ n → Prop
  | intro {start : Fin n → String} {w₁ w₂ v : World σ n} (hcompletion : completion = true)
      (hread : ReadsZones crew start clients w w₁)
      (hleft : (Poll.leaving start).Completed every clients w₁ w₂) (hfollows : Follows v w₂)
      (hcalls : ∀ e ∈ w₂.since v, e.isDrop = false → e.call? = some ⟨.truth, .isLoading⟩) : Loads v

/-- Only zones have been asked for, unless everyone has left. -/
def InOrder (v : World σ n) : Prop :=
  (∀ e ∈ w.since v, e.isDrop = false → e.call? = some ⟨.text, .zone⟩) ∨
    Loads crew every completion clients w v

/-- What follows when everyone has left. -/
def afterLeaving (m : Machine) : Activity n Effect :=
  if completion then .gather (clients.map fun i => (i, loadedChain every)) fun _ =>
    .done ⟨m.next, []⟩
  else .done ⟨m.next, []⟩

/-- What an instruction that waits for a change of zones does. -/
def activity (m : Machine) : Activity n Effect :=
  (zones clients).bind fun starts =>
    .gather (starts.map fun x => (x.1, leaveChain x.2 every)) fun _ =>
      afterLeaving every completion clients m

end

variable {crew : Crew n} {every : Nat} {completion : Bool} {clients : List (Fin n)}
  {w w₁ u v : World σ n} {m : Machine} {r : Running n Effect} {last : Bool} {p : Poll n ι}
  {step : Machine.StepResult × World σ n × Machine}

/-! ### What the activity comes to -/

theorem chains_leaving (start : Fin n → String) (w₁ : World σ n) :
    (clients.map fun i => (i, start i)).map (fun x => (x.1, leaveChain x.2 every)) =
      Inquiry.chains ((Poll.leaving start).inquiry every w₁) clients :=
  List.map_map

theorem chains_loading (w₂ : World σ n) : (clients.map fun i => (i, loadedChain every)) =
    Inquiry.chains (Poll.loading.inquiry every w₂) clients :=
  rfl

/-- A poll is under way, or everyone has come to a good end and what follows has come to
something. -/
theorem Begins.stage_or (hnodup : clients.Nodup)
    (hbegins : Begins crew every completion clients w last p w₁) (m : Machine)
    {next : List AnswerKind.nothing.Answer → Activity n Effect}
    (hcomes : Running.Comes crew ⟨none, none⟩ w₁
      ⟨[], .going (.gather (Inquiry.chains (p.inquiry every w₁) clients) next)⟩ v r) :
    Stage crew every completion clients w m v r ∨ ∃ w₂ results, p.Completed every clients w₁ w₂ ∧
      Running.Comes crew ⟨none, none⟩ w₂ ⟨[], .going (next results)⟩ v r := by
  rcases (Poll.begin_inquiry hnodup).comes hcomes with
    ⟨rfl, rfl⟩ | ⟨count, g, rfl, hpolls⟩ | hpassed
  · exact .inl (.begins hbegins next)
  · exact .inl (.polls hbegins hpolls next)
  · exact .inr hpassed

theorem stage_of_comes (hnodup : clients.Nodup)
    (hcomes : Running.Comes crew ⟨none, none⟩ w
      (.ofActivity (activity every completion clients m)) v r) :
    Stage crew every completion clients w m v r := by
  rcases zones_comes hnodup hcomes with hreading | ⟨start, w₁, hread, hcomes⟩
  · exact .reading hreading
  · rw [chains_leaving start w₁] at hcomes
    have hbegins : Begins crew every completion clients w (!completion) (.leaving start) w₁ :=
      .leaving hread
    rcases hbegins.stage_or hnodup m hcomes with hstage | ⟨w₂, results, hleft, hcomes⟩
    · exact hstage
    · cases completion with
      | false =>
        obtain ⟨rfl, rfl⟩ := Machine.comes_done hcomes
        exact .passed hbegins hleft
      | true =>
        rcases (Begins.loading rfl hread hleft).stage_or hnodup m hcomes with
          hstage | ⟨w₃, results, hloaded, hcomes⟩
        · exact hstage
        · obtain ⟨rfl, rfl⟩ := Machine.comes_done hcomes
          exact .passed (.loading rfl hread hleft) hloaded

/-- How a step ends, given what its activity has come to. -/
theorem Stage.result (h : Stage crew every completion clients w m v r) (hnodup : clients.Nodup)
    (hend : m.StopsAt crew ⟨none, none⟩ step v r) :
    Result crew every completion clients w m step := by
  cases h with
  | reading hreading =>
    cases hreading with
    | asks hclients hread next =>
      rcases hend with rfl | ⟨o, hhalt, -⟩
      · exact .underway (.reads hclients hread)
      · cases hhalt
    | waits hclients hread ht next =>
      rcases hend with rfl | ⟨o, hhalt, rfl⟩
      · exact .underway (.asks hclients hread ht)
      · rcases Running.halts_of_asking ht hhalt with rfl | ⟨ms, e, hreply, rfl⟩
        · exact .stuck (.asks hclients hread ht)
        · exact .refused hclients hread hreply
  | begins hbegins next =>
    rcases hend with rfl | ⟨o, hhalt, -⟩
    · exact .underway (.polls hbegins (.refl _ clients v))
    · cases hhalt
  | polls hbegins hpolls next =>
    rcases hend with rfl | ⟨o, hhalt, rfl⟩
    · exact .underway (.polls hbegins hpolls.underway)
    · rcases hpolls.halts hnodup hhalt with rfl | ⟨i, e, u, hbreaks, rfl⟩
      · exact .stuck (.polls hbegins hpolls.underway)
      · exact .failed hbegins hpolls.underway hbreaks
  | passed hbegins hcompleted =>
    rcases hend with rfl | ⟨o, hhalt, rfl⟩
    · exact .underway (.polls hbegins hcompleted.underway)
    · cases hhalt
      exact .passed hbegins hcompleted

/-! ### What happens on the way -/

variable {e : Event n}

/-- Until a poll begins, nothing fails. -/
theorem Begins.before (h : Begins crew every completion clients w last p w₁) :
    Follows w₁ w ∧ ∀ e ∈ w.since w₁, e.isFailure = false := by
  cases h with
  | leaving hread => exact ⟨hread.follows, fun e he => (hread.of_since he).2⟩
  | loading _ hread hleft =>
    refine ⟨hleft.follows.trans hread.follows, fun e he => ?_⟩
    rcases (hread.follows.mem_since hleft.follows).1 he with he | he
    · exact (hread.of_since he).2
    · exact hleft.not_isFailure he

/-- While a poll is under way, only zones have been asked for, or everyone has left. -/
theorem Begins.inOrder (h : Begins crew every completion clients w last p w₁)
    (hunderway : p.Underway every clients w₁ v) (hgives : u.GivesUp v) :
    InOrder crew every completion clients w u := by
  have hcalls : ∀ e ∈ w₁.since u, e.isDrop = false → e.call? = some ⟨_, p.call⟩ := by
    intro e he hkept
    rcases (hunderway.follows.mem_since hgives.follows).1 he with he | he
    · exact hunderway.call?_eq (fun _ => rfl) he
    · rw [hgives.drops e he] at hkept
      cases hkept
  have hfollows := hgives.follows.trans hunderway.follows
  cases h with
  | leaving hread =>
    refine .inl fun e he hkept => ?_
    rcases (hread.follows.mem_since hfollows).1 he with he | he
    · exact (hread.of_since he).1
    · exact hcalls e he hkept
  | loading hcompletion hread hleft => exact .inr (.intro hcompletion hread hleft hfollows hcalls)

variable {start : Fin n → String} {front : List (Fin n)}

/-- What has happened when a client has been asked for its zone after some others. -/
theorem of_since_asked (hread : ReadsZones crew start front w v) (i : Fin n) (t : Nat) :
    Follows ((v.call crew i .zone).2.atTime t) w ∧
      ∀ e ∈ w.since ((v.call crew i .zone).2.atTime t),
        e.call? = some ⟨.text, .zone⟩ ∧ e.isFailure = false := by
  refine ⟨(follows_atTime _ t).trans ((follows_call crew v i .zone).trans hread.follows),
    fun e he => ?_⟩
  -- The journal does not depend on the clock.
  change e ∈ w.since (v.record (.made v.now i .zone (v.focusHeld crew i))) at he
  rw [hread.follows.since_record] at he
  rcases List.mem_append.1 he with he | he
  · exact hread.of_since he
  · rw [List.mem_singleton.1 he]
    exact ⟨rfl, rfl⟩

/-- What has happened when it has failed to tell it. -/
theorem of_since_refused (hread : ReadsZones crew start front w v) {i : Fin n} {t : Nat}
    {f : ClientError} (he : e ∈ w.since (((v.call crew i .zone).2.atTime t).failed i .zone f)) :
    (e.call? = some ⟨.text, .zone⟩ ∧ e.isFailure = false) ∨
      e = .failed ((v.call crew i .zone).2.atTime t).now i .zone f := by
  obtain ⟨hfollows, hsince⟩ := of_since_asked hread i t
  rw [failed, hfollows.since_record] at he
  rcases List.mem_append.1 he with he | he
  · exact .inl (hsince e he)
  · exact .inr (List.mem_singleton.1 he)

theorem Course.inOrder (h : Course crew every completion clients w v) :
    InOrder crew every completion clients w v := by
  cases h with
  | reads _ hread => exact .inl fun e he _ => (hread.of_since he).1
  | @asks start front back i v t _ hread _ =>
    exact .inl fun e he _ => ((of_since_asked hread i t).2 e he).1
  | polls hbegins hunderway => exact hbegins.inOrder hunderway (.refl v)

/-- Only zones are asked for before everyone has left. -/
theorem Result.inOrder (h : Result crew every completion clients w m step) :
    InOrder crew every completion clients w step.2.1 := by
  cases h with
  | underway hcourse => exact hcourse.inOrder
  | stuck hcourse => exact hcourse.inOrder
  | passed hbegins hcompleted => exact hbegins.inOrder hcompleted.underway (.refl _)
  | refused _ hread hreply =>
    refine .inl fun e he _ => ?_
    rcases of_since_refused hread he with ⟨hcall, -⟩ | rfl
    · exact hcall
    · rfl
  | failed hbegins hunderway hbreaks => exact hbegins.inOrder hunderway hbreaks.givesUp

/-- After a client has failed to tell a zone, nobody is asked whether it is loading. -/
theorem Result.not_loading (h : Result crew every completion clients w m step) {t : Nat} {i : Fin n}
    {f : ClientError} (hfailed : .failed t i Call.zone f ∈ w.since step.2.1) (t' : Nat) (j : Fin n)
    (held : Bool) : .made t' j Call.isLoading held ∉ w.since step.2.1 := by
  intro hmade
  rcases h.inOrder with hzones | @⟨start, w₁, w₂, v, hcompletion, hread, hleft, hfollows, hcalls⟩
  · cases hzones _ hmade rfl
  · -- A failure before `w₂` would have kept the second poll from beginning; after it,
    -- no zone is asked for.
    have hbegins : Begins crew every completion clients w true .loading w₂ :=
      .loading hcompletion hread hleft
    obtain ⟨hsince, hbefore⟩ := hbegins.before
    rcases (hsince.mem_since hfollows).1 hfailed with hmem | hmem
    · cases hbefore _ hmem
    · cases hcalls _ hmem rfl

/-- In a small group, a failure is the end. -/
theorem Stage.halts_of_failure (h : Stage crew every completion clients w m v r)
    (hnodup : clients.Nodup) (hsmall : clients.length ≤ Group.smallSize)
    (hend : m.StopsAt crew ⟨none, none⟩ step v r) {t : Nat} {i : Fin n} {c : Call κ}
    {f : ClientError} (hfailed : .failed t i c f ∈ w.since step.2.1) :
    ∃ u, r.tick crew ⟨none, none⟩ v = .halt (.ended u (.error (.client (crew.title i) f))) := by
  cases h with
  | reading hreading =>
    cases hreading with
    | asks hclients hread next =>
      rcases hend with rfl | ⟨o, hhalt, -⟩
      · cases (hread.of_since hfailed).2
      · cases hhalt
    | @waits start front back j v s hclients hread ht next =>
      have hnone := (of_since_asked hread j s).2
      rcases hend with rfl | ⟨o, hhalt, rfl⟩
      · cases (hnone _ hfailed).2
      · rcases Running.halts_of_asking ht hhalt with rfl | ⟨ms, e, hreply, rfl⟩
        · cases (hnone _ hfailed).2
        · rcases of_since_refused hread hfailed with ⟨-, hno⟩ | hsame
          · cases hno
          · cases hsame
            exact ⟨_, hhalt⟩
  | begins hbegins next =>
    rcases hend with rfl | ⟨o, hhalt, -⟩
    · cases hbegins.before.2 _ hfailed
    · cases hhalt
  | @polls last ι p w₁ v count g hbegins hpolls next =>
    obtain ⟨hfollows, hbefore⟩ := hbegins.before
    -- Whatever is dropped at the end, the failure has happened in the poll.
    have hmem : ∀ {u : World σ n}, u.GivesUp v → .failed t i c f ∈ w.since u →
        .failed t i c f ∈ w₁.since v := by
      intro u hgives hmem
      rcases ((hpolls.follows.trans hfollows).mem_since hgives.follows).1 hmem with hmem | hmem
      · rcases (hfollows.mem_since hpolls.follows).1 hmem with hmem | hmem
        · cases hbefore _ hmem
        · exact hmem
      · cases hgives.drops _ hmem
    suffices hpolled : .failed t i c f ∈ w₁.since v from ⟨_, hpolls.tick_of_failure hsmall hpolled⟩
    rcases hend with rfl | ⟨o, hhalt, rfl⟩
    · exact hmem (.refl v) hfailed
    · rcases hpolls.halts hnodup hhalt with rfl | ⟨j, e, u, hbreaks, rfl⟩
      · exact hmem (.refl v) hfailed
      · exact hmem hbreaks.givesUp hfailed
  | @passed ι p w₁ v hbegins hcompleted =>
    obtain ⟨hfollows, hbefore⟩ := hbegins.before
    have hnone : .failed t i c f ∉ w.since v := by
      intro hmem
      rcases (hfollows.mem_since hcompleted.follows).1 hmem with hmem | hmem
      · cases hbefore _ hmem
      · cases hcompleted.not_isFailure hmem
    rcases hend with rfl | ⟨o, hhalt, rfl⟩
    · exact absurd hfailed hnone
    · cases hhalt
      exact absurd hfailed hnone

end ZoneChange

/-! ### The instruction -/

namespace Machine

open ZoneChange

variable {crew : Crew n} {every : Nat} {w : World σ n} {m : Machine} {who : Selector} {wait : Wait}

/-- What an instruction that waits for a change of zones does, if it is carried out in a world. -/
structure WaitsForZones (crew : Crew n) (every : Nat) (completion : Bool) (clients : List (Fin n))
    (w : World σ n) (m : Machine) : Prop where
  /-- However far a step gets, it is one of the ways in which it may end. -/
  result : ∀ fuel, Result crew every completion clients w m (m.step crew every ⟨none, none⟩ fuel w)
  /-- Only zones are asked for before everyone has left. -/
  inOrder : ∀ fuel,
    InOrder crew every completion clients w (m.step crew every ⟨none, none⟩ fuel w).2.1
  /-- If all zones are told, everyone is asked until it has left and, with `completion`, then until
  it has loaded; after that the machine goes on. -/
  leads : ∀ start w₁, ReadsZones crew start clients w w₁ →
    (Poll.leaving start).Leads every clients w₁ crew m w fun w₂ =>
      (completion = false → ∃ fuel, m.step crew every ⟨none, none⟩ fuel w = m.movesOn w₂) ∧
      (completion = true → Poll.loading.Leads every clients w₂ crew m w fun w₃ =>
        ∃ fuel, m.step crew every ⟨none, none⟩ fuel w = m.movesOn w₃)
  /-- A client that fails to tell its zone ends the wait, and nobody else is asked. -/
  refuses : ∀ start front i back v ms e, clients = front ++ i :: back →
    ReadsZones crew start front w v → (v.call crew i .zone).1 = ⟨some ms, .error e⟩ →
    ∃ fuel, m.step crew every ⟨none, none⟩ fuel w = (.failed (.client (crew.title i) e),
      ((v.call crew i .zone).2.atTime (v.now + ms)).failed i .zone e, m)
  /-- In a small group, a call that fails makes the instruction fail with the error of
  its client. -/
  fails : clients.length ≤ Group.smallSize → ∀ fuel t i {κ : AnswerKind} (c : Call κ) e,
    .failed t i c e ∈ w.since (m.step crew every ⟨none, none⟩ fuel w).2.1 →
    ∃ fuel u, m.step crew every ⟨none, none⟩ fuel w = (.failed (.client (crew.title i) e), u, m)
  /-- After a failure to tell a zone, nobody is asked whether it is loading. -/
  ends : ∀ fuel t i e,
    .failed t i Call.zone e ∈ w.since (m.step crew every ⟨none, none⟩ fuel w).2.1 →
    ∀ t' j held, .made t' j Call.isLoading held ∉
    w.since (m.step crew every ⟨none, none⟩ fuel w).2.1

theorem plan_zoneChange (hkind : wait.kind = .zoneChange) (who : Selector) (crew : Crew n)
    (every : Nat) (m : Machine) :
    m.plan crew every (.act who (.waitFor wait)) =
      activity every wait.completion (who.pick n) m := by
  obtain ⟨kind, completion⟩ := wait
  cases hkind
  cases completion with
  | false => exact Activity.bind_assoc _ _ _
  | true => exact Activity.bind_assoc _ _ _

/-- What the activity of a step has come to when the step ends. -/
theorem exists_stage (hrunning : m.running = true)
    (hi : m.instruction? = some (.act who (.waitFor wait))) (hkind : wait.kind = .zoneChange)
    (crew : Crew n) (every fuel : Nat) (w : World σ n) :
    ∃ v r, ZoneChange.Stage crew every wait.completion (who.pick n) w m v r ∧
      Running.Comes crew ⟨none, none⟩ w (.ofActivity (m.plan crew every (.act who (.waitFor wait))))
      v r ∧ m.StopsAt crew ⟨none, none⟩ (m.step crew every ⟨none, none⟩ fuel w) v r := by
  obtain ⟨v, r, hcomes, hend⟩ := exists_stopsAt hrunning hi crew every ⟨none, none⟩ fuel w
  refine ⟨v, r, stage_of_comes (who.pick_nodup n) ?_, hcomes, hend⟩
  rw [← plan_zoneChange hkind who crew every m]
  exact hcomes

theorem result_of_step (hrunning : m.running = true)
    (hi : m.instruction? = some (.act who (.waitFor wait))) (hkind : wait.kind = .zoneChange)
    (crew : Crew n) (every fuel : Nat) (w : World σ n) :
    Result crew every wait.completion (who.pick n) w m (m.step crew every ⟨none, none⟩ fuel w) := by
  obtain ⟨v, r, hstage, -, hend⟩ := exists_stage hrunning hi hkind crew every fuel w
  exact hstage.result (who.pick_nodup n) hend

/-- An instruction that waits for a change of zones goes through its phases one after the other. -/
theorem zone_change_in_phases (crew : Crew n) (every : Nat) (w : World σ n) {m : Machine}
    {who : Selector} {wait : Wait} (hrunning : m.running = true)
    (hi : m.instruction? = some (.act who (.waitFor wait))) (hkind : wait.kind = .zoneChange) :
    WaitsForZones crew every wait.completion (who.pick n) w m := by
  have hnodup := who.pick_nodup n
  have hplan := plan_zoneChange hkind who crew every m
  have hresult := fun fuel => result_of_step hrunning hi hkind crew every fuel w
  refine ⟨hresult, fun fuel => (hresult fuel).inOrder, fun start w₁ hread => ?_, ?_, ?_,
    fun fuel t i e hfailed => (hresult fuel).not_loading hfailed⟩
  · have hleaving : Running.Comes crew ⟨none, none⟩ w
        (.ofActivity (m.plan crew every (.act who (.waitFor wait)))) w₁
        ⟨[], .going (.gather
          (Inquiry.chains ((Poll.leaving start).inquiry every w₁) (who.pick n))
          fun _ => afterLeaving every wait.completion (who.pick n) m)⟩ := by
      rw [hplan, ← chains_leaving start w₁]
      exact hread.comes _
    refine Poll.leads hrunning hi hnodup hleaving fun w₂ _ hleft => ⟨fun hno => ?_, fun hyes => ?_⟩
    · rw [afterLeaving, if_neg (Bool.eq_false_iff.1 hno)] at hleft
      exact exists_step_of_halt hrunning hi hleft rfl
    · rw [afterLeaving, if_pos hyes, chains_loading w₂] at hleft
      exact Poll.leads hrunning hi hnodup hleft fun w₃ _ hloaded =>
        exists_step_of_halt hrunning hi hloaded rfl
  · rintro start front i back v ms e hclients hread hreply
    obtain ⟨r, hcomes, hhalt⟩ := hread.exists_refused hreply back _
    rw [← hclients] at hcomes
    exact exists_step_of_halt hrunning hi (hplan ▸ hcomes) hhalt
  · -- The step may lack fuel right after the failure, so it is another one that fails.
    intro hsmall fuel t i κ c e hfailed
    obtain ⟨v, r, hstage, hcomes, hend⟩ := exists_stage hrunning hi hkind crew every fuel w
    obtain ⟨u, hhalt⟩ := hstage.halts_of_failure hnodup hsmall hend hfailed
    obtain ⟨fuel', hstep⟩ := exists_step_of_halt hrunning hi hcomes hhalt
    exact ⟨fuel', u, hstep⟩

/-! ### Two clients that travel -/

/-- Two clients, of which the first one leaves later and the second one loads longer. -/
def travellers : World Rehearsal 2 :=
  .initial #v[traveller [.value "A", .value "A", .value "B"] [false] 10,
    traveller [.value "A", .value "B"] [true, false] 30]

/-- The world in which both have told their zones. -/
def departure : World Rehearsal 2 :=
  (((((travellers.call pair first .zone).2.atTime 10).answered first .zone "A").call pair second
    .zone).2.atTime
    40).answered second .zone "A"

/-- Both have told their zones after 40 ms, have left after 160 ms, and have loaded after 320 ms. -/
theorem travellers_in_phases :
    let m := about (.act .all (.waitFor ⟨.zoneChange, true⟩))
    ReadsZones pair (fun _ => "A") [0, 1] travellers departure ∧ departure.now = 40 ∧
      ∃ w₂ w₃ fuel, (Poll.leaving fun _ => "A").Completed 100 [0, 1] departure w₂ ∧ w₂.now = 160 ∧
        Poll.loading.Completed 100 [0, 1] w₂ w₃ ∧ w₃.now = 320 ∧
        m.step pair 100 ⟨none, none⟩ fuel travellers = m.movesOn w₃ := by
  intro m
  have hread : ReadsZones pair (fun _ => "A") [0, 1] travellers departure :=
    .cons rfl (.cons rfl .nil)
  obtain ⟨-, -, hleads, -⟩ := zone_change_in_phases pair 100 travellers (m := m) rfl rfl rfl
  have hfirst : ∀ i ∈ Selector.all.pick 2,
      ((Poll.leaving fun _ => "A").inquiry 100 departure i).First
      (fun zone => zone != "A") (1 - i) := by decide
  obtain ⟨w₂, ⟨hleft, -⟩, -, hloading⟩ := (hleads _ _ hread).passes (fun i => 1 - i) hfirst
  have hends := fun i hi => (Inquiry.ends_iff_first rfl).2 ⟨_, rfl, hfirst i hi⟩
  have hnow : w₂.now = 160 := hleft.now_eq (fun _ _ => rfl) hends
  -- What they are asked next depends on the states they are left in.
  have hinquiry : ∀ i ∈ Selector.all.pick 2, Poll.loading.inquiry 100 w₂ i =
      .ofClient .isLoading 100
      ⟨160, [fun b => !b], (Poll.leaving fun _ => "A").state 100 departure i (1 - i + 1)⟩ := by
    intro i hi
    rw [Poll.inquiry, Poll.first, hleft.client_eq hi (hends i hi), hnow]
    rfl
  have hfirst' : ∀ i ∈ Selector.all.pick 2,
      (Poll.loading.inquiry 100 w₂ i).First (fun b => !b) i := by
    intro i hi
    rw [hinquiry i hi]
    revert i
    decide
  obtain ⟨w₃, ⟨hloaded, -⟩, fuel, hstep⟩ := (hloading rfl).passes (fun i => i) hfirst'
  refine ⟨hread, rfl, w₂, w₃, fuel, hleft, hnow, hloaded, ?_, hstep⟩
  rw [hloaded.now_eq (fun _ _ => rfl) fun i hi =>
    (Inquiry.ends_iff_first rfl).2 ⟨_, rfl, hfirst' i hi⟩,
    hnow, List.map_congr_left fun i hi => by rw [hinquiry i hi]]
  rfl

/-! ### A large group -/

/-- What a client in a crowd tells after its first zone: the first one never leaves, the
last one fails. -/
def later (i : Fin 31) : List (Prepared String) :=
  if i = 0 then [] else if i = 30 then [.failure (some "no")] else [.value "B"]

/-- Many clients that are in the same zone. -/
def stranded : World Rehearsal 31 :=
  .initial (Vector.ofFn fun i => traveller (.value "A" :: later i) [] 0)

theorem reply_traveller (zone : String) (later : List (Prepared String)) (t : Nat) :
    ClientModel.reply t Call.zone (traveller (.value zone :: later) [] 0) =
      (⟨some 0, .ok zone⟩, traveller (if later = [] then [.value zone] else later) [] 0) := by
  cases later <;> rfl

theorem stranded_client (i : Fin 31) :
    stranded.clients.get i = traveller (.value "A" :: later i) [] 0 :=
  Vector.getElem_ofFn i.isLt

/-- The first client of a crowd never comes to the end of the poll. -/
theorem stranded_poll {start : Fin 31 → String} {w₁ : World Rehearsal 31}
    (hread : ReadsZones crowd start (Selector.all.pick 31) stranded w₁) (k : Nat) :
    ¬ ((Poll.leaving start).inquiry 1000000 w₁ 0).Ends k ∧
      ∀ e, ¬ ((Poll.leaving start).inquiry 1000000 w₁ 0).Fails k e := by
  obtain ⟨t, ms, hreply⟩ := hread.exists_reply (Selector.pick_nodup .all 31) (i := 0) (by decide)
  rw [stranded_client, reply_traveller] at hreply
  obtain ⟨htold, hclient⟩ := Prod.mk.inj hreply
  have hstart : start 0 = "A" := by
    injection htold with _ hzone
    injection hzone with hzone
    exact hzone.symm
  -- It always replies that it is where it was.
  have hreplies : ∀ j, ((Poll.leaving start).inquiry 1000000 w₁ 0).reply j = ⟨some 0, .ok "A"⟩ := by
    refine Inquiry.ofClient_reply_eq _ _ fun t => ?_
    change ClientModel.reply t Call.zone (w₁.clients.get 0) = (_, w₁.clients.get 0)
    rw [← hclient]
    exact reply_traveller "A" [] t
  refine ⟨fun hends => ?_, fun e hfails => ?_⟩
  · obtain ⟨j, -, -, -, hmet⟩ := (Inquiry.ends_iff_first rfl).1 hends
    rw [hreplies] at hmet
    simp [Except.toOption, Poll.leaving, hstart] at hmet
  · have hresult := hfails.2.2.2
    rw [hreplies] at hresult
    cases hresult

/-- In a crowd, the last client fails at once, and the instruction never does. -/
theorem crowd_fails_in_vain :
    let m := about (.act .all (.waitFor ⟨.zoneChange, false⟩))
    (∃ fuel, ∃ e ∈ stranded.since (m.step crowd 1000000 ⟨none, none⟩ fuel stranded).2.1,
      e.isFailure = true ∧ e.concerns 30 = true) ∧
      ∀ fuel f, (m.step crowd 1000000 ⟨none, none⟩ fuel stranded).1 ≠ .failed f := by
  intro m
  refine ⟨⟨400, by decide +kernel⟩, fun fuel f hfailed => ?_⟩
  have hresult := result_of_step (m := m) rfl rfl rfl crowd 1000000 fuel stranded
  generalize m.step crowd 1000000 ⟨none, none⟩ fuel stranded = step at hresult hfailed
  cases hresult with
  | underway => cases hfailed
  | stuck => cases hfailed
  | passed => cases hfailed
  | @refused start front back i v ms e hclients hread hreply =>
    have hi : i ∉ front := by
      have hnodup := hclients ▸ Selector.pick_nodup .all 31
      exact fun hmem => (List.disjoint_of_nodup_append hnodup) hmem List.mem_cons_self
    change (ClientModel.reply v.now Call.zone (v.clients.get i)).1 = _ at hreply
    rw [hread.client_eq hi, stranded_client, reply_traveller] at hreply
    cases hreply
  | @failed last ι p w₁ v u i e hbegins _ hbreaks =>
    cases hbegins with
    | leaving hread =>
      obtain ⟨k, hfails, -⟩ := hbreaks.fails
      by_cases hi : i = 0
      · exact (stranded_poll hread k).2 e (hi ▸ hfails)
      · -- The group waits for the first client.
        obtain ⟨front, back, hclients⟩ := List.append_of_mem hbreaks.mem
        have hfirst : (0 : Fin 31) ∈ front := by
          have hhead : (Selector.all.pick 31).head? = some 0 := by decide
          rw [hclients] at hhead
          cases front with
          | nil => exact absurd (Option.some.inj hhead) hi
          | cons j rest => exact Option.some.inj hhead ▸ List.mem_cons_self
        obtain ⟨l, hends⟩ := hbreaks.first (by decide) front back hclients 0 hfirst
        exact (stranded_poll hread l).1 hends
    | loading hcompletion => cases hcompletion

end Machine

end BotScript
