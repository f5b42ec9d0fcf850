import BotScript.Proofs.Activity.Claims
import BotScript.Proofs.Activity.Performed
import BotScript.Proofs.Activity.Zones
import BotScript.Proofs.Machine.FanOut

/-!
# How long activities last

The time that a chain takes can be told from the replies of its client alone, as long as nobody else
wants the input focus: it is the time of its calls and its rests. A group of chains lasts as long as
the longest of them. So the end of an activity, and the time at which it comes to it, can be put
together from its parts.

## Main definitions

* `Chain.Lasts`: a chain, with a client in a state, lasts from one time to another.
* `Activity.Finishes`: an activity comes to its end, with a result or a fault of some kind.

## Main results

* `Chain.Lasts.endsAlone`: a member of a group ends by itself when its chain does.
* `Group.comes_of_endsAlone`: a group all of whose members end well lasts as long as the longest.
* `Activity.Finishes.bind`: the end of one activity after the other.
-/

namespace BotScript

open World

variable {σ : Type} {n : Nat} {ι κ : AnswerKind} {α β : Type} [ClientModel σ]

/-! ### Chains -/

/-- A chain that begins at a time, with a client in a state, comes to a good end at a time. The
focus is there when it is asked for. -/
inductive Chain.Lasts : Nat → σ → Chain κ → Nat → κ.Answer → Prop
  | done (t : Nat) (s : σ) (b : κ.Answer) : Lasts t s (.done b) t b
  | call {t d u : Nat} {s s' : σ} {ι : AnswerKind} {c : Call ι} {a : ι.Answer}
      {next : ι.Answer → Chain κ}
      {b : κ.Answer} (hreply : ClientModel.reply t c s = (⟨some d, .ok a⟩, s'))
      (h : Lasts (t + d) s' (next a) u b) : Lasts t s (.call c next) u b
  | rest {t ms u : Nat} {s : σ} {next : Chain κ} {b : κ.Answer} (h : Lasts (t + ms) s next u b) :
      Lasts t s (.rest ms next) u b
  | focus {t u : Nat} {s : σ} {next : Chain κ} {b : κ.Answer} (h : Lasts t s next u b) :
      Lasts t s (.focus next) u b
  | poll {t d u : Nat} {s s' : σ} {ι : AnswerKind} {c : Call ι} {a : ι.Answer}
      {enough : ι.Answer → Bool} {every : Nat} {next : Chain κ} {b : κ.Answer}
      (hreply : ClientModel.reply t c s = (⟨some d, .ok a⟩, s'))
      (h : Lasts (t + d) s'
        (if enough a then next else .rest every (.poll c enough every next)) u b) :
      Lasts t s (.poll c enough every next) u b

namespace Member

variable {crew : Crew n} {w : World σ n} {m : Member n κ} {i : Fin n} {s t u : Nat}
  {r : Except Fault κ.Answer}

theorem endsAlone_of_canMove (hmove : m.canMove crew w = true)
    (h : (m.move crew w).1.EndsAlone crew (m.move crew w).2 t r) : m.EndsAlone crew w t r := by
  obtain ⟨fuel, w', hrun, hnow⟩ := h
  refine ⟨fuel + 1, w', ?_, hnow⟩
  rw [Running.run_succ_on (tick_alone_of_canMove hmove), hrun]

/-- A member that waits for a time goes on when it has come. -/
theorem endsAlone_of_wakeAt (hwake : m.wakeAt = some s)
    (h : (m.move crew (w.atTime s)).1.EndsAlone crew (m.move crew (w.atTime s)).2 t r) :
    m.EndsAlone crew w t r := by
  have hthen : m.canMove crew (w.atTime s) = true := by
    rw [canMove_of_wakeAt hwake]
    exact decide_eq_true (Nat.le_max_right _ _)
  have hlater := endsAlone_of_canMove hthen h
  by_cases hnow : s ≤ w.now
  · rwa [atTime_of_le hnow] at hlater
  · obtain ⟨fuel, w', hrun, hend⟩ := hlater
    have hcannot : m.canMove crew w = false := by
      rw [canMove_of_wakeAt hwake]
      exact decide_eq_false hnow
    have htick : m.alone.tick crew ⟨none, none⟩ w = .on (w.atTime s) m.alone := by
      rw [tick_alone_of_waits hcannot (not_ended_of_wakeAt hwake), hwake]
      rfl
    exact ⟨fuel + 1, w', by rw [Running.run_succ_on htick, hrun], hend⟩

/-- A member that has made a call goes on with the answer when it has come. -/
theorem endsAlone_calling {c : Call ι} {a : ι.Answer} {next : ι.Answer → Chain κ}
    (h : (⟨i, .ready (next a)⟩ : Member n κ).EndsAlone crew ((w.atTime s).answered i c a) t r) :
    (⟨i, .calling c (some s) (.ok a) next⟩ : Member n κ).EndsAlone crew w t r :=
  endsAlone_of_wakeAt rfl h

theorem endsAlone_done (crew : Crew n) (i : Fin n) (w : World σ n) (b : κ.Answer) :
    (⟨i, .ready (.done b)⟩ : Member n κ).EndsAlone crew w w.now (.ok b) := by
  have hplays : Plays crew w ⟨i, .ready (.done b)⟩ 1 (w.release i) ⟨i, .ended (.ok b)⟩ :=
    .move .start rfl
  exact hplays.endsAlone rfl

end Member

/-- The chain of a member that has the focus to itself ends in the group by itself as it
does for its client. -/
theorem Chain.Lasts.endsAlone {crew : Crew n} {t u : Nat} {s : σ} {c : Chain κ} {b : κ.Answer}
    (h : c.Lasts t s u b) {w : World σ n} {i : Fin n} (hnow : w.now = t)
    (hclient : w.clients.get i = s) (hfree : w.Unrivalled crew i) :
    (⟨i, .ready c⟩ : Member n κ).EndsAlone crew w u (.ok b) := by
  -- The time and the state of the client are those of the world; a call changes both, everything
  -- else at most the time or the claims of the client itself.
  have hcalled : ∀ {w : World σ n} {t d : Nat} {s s' : σ} {ι : AnswerKind} {c : Call ι}
      {a : ι.Answer}, w.now = t → w.clients.get i = s →
      ClientModel.reply t c s = (⟨some d, .ok a⟩, s') →
      (w.call crew i c).1 = ⟨some d, .ok a⟩ ∧
        (((w.call crew i c).2.atTime (t + d)).answered i c a).now = t + d ∧
        (((w.call crew i c).2.atTime (t + d)).answered i c a).clients.get i = s' := by
    rintro w t d s s' ι c a rfl rfl hreply
    obtain ⟨hresult, -, hstate, -⟩ := call_of_reply crew hreply
    exact ⟨hresult, Nat.max_eq_right (Nat.le_add_right _ _), hstate⟩
  induction h generalizing w with
  | done t s b =>
    subst hnow
    exact Member.endsAlone_done crew i w b
  | @call t d u s s' ι c a next b hreply _ ih =>
    obtain ⟨hresult, hlater, hstate⟩ := hcalled hnow hclient hreply
    refine Member.endsAlone_of_canMove rfl ?_
    simp only [Member.move, Member.call, hresult, Reply.due, Option.map_some, hnow]
    exact Member.endsAlone_calling (ih hlater hstate hfree)
  | @rest t ms u s next b _ ih =>
    refine Member.endsAlone_of_canMove rfl (Member.endsAlone_of_wakeAt rfl ?_)
    refine ih ?_ hclient hfree
    rw [← hnow]
    exact Nat.max_eq_right (Nat.le_add_right _ _)
  | focus _ ih =>
    have hfocus := hfree.hasFocus_claim
    exact Member.endsAlone_of_canMove rfl
      (Member.endsAlone_of_canMove hfocus (ih hnow hclient (.inr hfocus)))
  | @poll t d u s s' ι c a enough every next b hreply _ ih =>
    obtain ⟨hresult, hlater, hstate⟩ := hcalled hnow hclient hreply
    refine Member.endsAlone_of_canMove rfl ?_
    simp only [Member.move, Member.call, hresult, Reply.due, Option.map_some, hnow]
    exact Member.endsAlone_calling (ih hlater hstate hfree)

/-! ### Activities with a sequel -/

namespace Running

variable {crew : Crew n} {alarm : Alarm} {w w' : World σ n} {r r' : Running n α}

/-- What an activity does, or waits for, it does or waits for with a sequel as well, unless it has
come to its end. -/
theorem advance_andThen_cases (crew : Crew n) (w : World σ n) (r : Running n α)
    (f : α → Activity n β) :
    match r.advance crew w with
    | .moved w' r' => (r.andThen f).advance crew w = .moved w' (r'.andThen f)
    | .ended _ _ => True
    | .waits till => (r.andThen f).advance crew w = .waits till := by
  obtain ⟨launched, phase⟩ := r
  cases phase with
  | going a => cases a <;> first | rfl | trivial
  | asking who c due result next =>
    simp only [andThen, Phase.andThen, advance]
    cases hdue : isDue w.now due with
    | true => cases result <;> first | rfl | trivial
    | false => rfl
  | pausing due next =>
    simp only [andThen, Phase.andThen, advance]
    by_cases hdue : due ≤ w.now
    · simp only [if_pos hdue]
    · simp only [if_neg hdue]
  | grouped g next =>
    simp only [andThen, Phase.andThen, advance]
    cases g.verdict with
    | some verdict => cases verdict <;> first | rfl | trivial
    | none => cases g.next? crew w <;> rfl

theorem tick_andThen_on (h : r.tick crew alarm w = .on w' r') (f : α → Activity n β) :
    (r.andThen f).tick crew alarm w = .on w' (r'.andThen f) := by
  have hcases := advance_andThen_cases crew w r f
  unfold tick at h ⊢
  rw [waits_andThen]
  split at h
  · cases h
  · rename_i hrung
    rw [if_neg hrung]
    cases hadv : r.advance crew w with
    | moved w₁ r₁ =>
      rw [hadv] at h hcases
      cases h
      rw [hcases]
    | ended w₁ result =>
      rw [hadv] at h
      cases h
    | waits till =>
      rw [hadv] at h hcases
      rw [hcases]
      dsimp only at h ⊢
      cases hbell : alarm.bell till with
      | wake t =>
        rw [hbell] at h
        cases h
        rw [wake_andThen]
      | cancel | expire | never =>
        rw [hbell] at h
        cases h

/-- What an activity comes to, it comes to with a sequel as well. -/
theorem Comes.andThen (h : Comes crew alarm w r w' r') (f : α → Activity n β) :
    Comes crew alarm w (r.andThen f) w' (r'.andThen f) := by
  induction h with
  | start => exact .start
  | tick _ htick ih => exact ih.tick (tick_andThen_on htick f)

end Running

/-! ### Groups -/

/-- Of the times at which some clients are done, one is the latest, or there are none. -/
theorem exists_latest (clients : List (Fin n)) (ends : Fin n → Nat) (start : Nat) :
    ∃ T, (∀ i ∈ clients, ends i ≤ T) ∧ (clients = [] ∧ T = start ∨ ∃ i ∈ clients, ends i = T) := by
  induction clients with
  | nil => exact ⟨start, nofun, .inl ⟨rfl, rfl⟩⟩
  | cons j rest ih =>
    obtain ⟨T, hle, hlast⟩ := ih
    by_cases hj : T ≤ ends j
    · refine ⟨ends j, ?_, .inr ⟨j, List.mem_cons_self, rfl⟩⟩
      simpa using fun i hi => (hle i hi).trans hj
    · rcases hlast with ⟨rfl, rfl⟩ | ⟨i, hi, rfl⟩
      · exact ⟨ends j, by simp, .inr ⟨j, List.mem_cons_self, rfl⟩⟩
      · refine ⟨ends i, ?_, .inr ⟨i, List.mem_cons_of_mem j hi, rfl⟩⟩
        simpa using ⟨Nat.le_of_not_le hj, hle⟩

variable {crew : Crew n} {w w' w₁ : World σ n}

/-- A group that succeeds comes to what follows it. -/
theorem Group.SucceedsAt.comes {g : Group n κ} {T : Nat} {results : List κ.Answer}
    (h : SucceedsAt crew w g .done T results) (next : List κ.Answer → Activity n α) :
    ∃ w', Running.Comes crew ⟨none, none⟩ w ⟨[], .grouped g next⟩ w' ⟨[], .going (next results)⟩ ∧
      w'.now = T := by
  obtain ⟨ticks, w', hrun, hnow, -⟩ := h
  have hended : Running.run crew ⟨none, none⟩ (1 + ticks) w ⟨[], .grouped g .done⟩ =
      .ended w' (.ok results) :=
    hrun 1
  obtain ⟨w₂, r₂, hcomes, hend⟩ := Running.exists_comes_timed crew ⟨none, none⟩ (1 + ticks) w
    (⟨[], .grouped g .done⟩ : Running n (List κ.Answer))
  rw [hended] at hend
  rcases hend with hfuel | hhalt
  · cases hfuel
  · -- A group does not end by itself, so it has gone on with its results, and these are the last
    -- thing it does.
    have hcases := hcomes.of_grouped (I := fun _ _ => True) (fun _ _ _ _ _ => trivial)
      (fun _ _ _ _ => trivial) trivial
    rcases hcases with ⟨g', -, rfl⟩ | ⟨w₁, g₁, results₁, -, -, hdone⟩
    · exact absurd hhalt Running.tick_grouped_ne
    · rcases hdone.cases_head with ⟨rfl, rfl⟩ | ⟨w₃, r₃, htick, -⟩
      · cases hhalt
        exact ⟨w₂, hcomes.andThen next, hnow⟩
      · cases htick

/-- A group all of whose members come to a good end by themselves lasts as long as the
longest of them. -/
theorem Group.comes_of_endsAlone {clients : List (Fin n)} (every : Nat)
    (member : Fin n → Member n κ) (ends : Fin n → Nat) (result : Fin n → κ.Answer) {T : Nat}
    (hwho : ∀ i, (member i).who = i) (hapart : crew.Apart clients)
    (hbegins : ∀ i, (member i).Begins every)
    (hends : ∀ i ∈ clients, (member i).EndsAlone crew w (ends i) (.ok (result i)))
    (hle : ∀ i ∈ clients, ends i ≤ T) (hlast : clients = [] ∧ T = w.now ∨ ∃ i ∈ clients, ends i = T)
    (next : List κ.Answer → Activity n α) :
    ∃ w', Running.Comes crew ⟨none, none⟩ w ⟨[], .grouped ⟨clients.map member, 0⟩ next⟩ w'
      ⟨[], .going (next (clients.map result))⟩ ∧ w'.now = T := by
  have hmember : ∀ x ∈ clients.map member, ∃ i ∈ clients, member i = x :=
    fun x hx => List.mem_map.1 hx
  have hfresh : Fresh crew w ⟨clients.map member, 0⟩ := by
    refine ⟨rfl, fun x hx => ?_, ?_, fun x hx T => ?_, fun x hx => ?_⟩
    · obtain ⟨i, -, rfl⟩ := hmember x hx
      exact (hbegins i).not_ended
    · simpa [Function.comp_def, hwho] using hapart
    · obtain ⟨i, hi, rfl⟩ := hmember x hx
      exact (hends i hi).timely
    · obtain ⟨i, -, rfl⟩ := hmember x hx
      exact (hbegins i).ensures crew
  have hresults : List.Forall₂ (fun (m : Member n κ) a => ∃ t ≤ T, m.EndsAlone crew w t (.ok a))
      (clients.map member) (clients.map result) := by
    rw [List.forall₂_map_left_iff, List.forall₂_map_right_iff, List.forall₂_same]
    exact fun i hi => ⟨ends i, hle i hi, hends i hi⟩
  refine (hfresh.succeedsAt hresults (hlast.imp (fun h => ⟨by rw [h.1]; rfl, h.2⟩) ?_)).comes next
  rintro ⟨i, hi, rfl⟩
  obtain ⟨q, hq⟩ := List.mem_iff_getElem?.1 hi
  exact ⟨q, _, member i, by simp [hq], hends i hi⟩

/-- An action is started on some clients, one after the other, and each of them is called as soon as
those before it have been. -/
theorem Running.comes_launchAll (crew : Crew n) (c : Call .nothing) (next : Activity n α)
    (clients : List (Fin n)) (launched : List (Member n .nothing)) (w : World σ n) :
    ∃ w' members, Running.Comes crew ⟨none, none⟩ w ⟨launched,
      .going (.launchAll c next clients)⟩ w'
        ⟨[], .grouped ⟨launched ++ members, 0⟩ fun _ => next⟩ ∧ w'.now = w.now ∧
      List.Forall₂ (fun i m => ∃ v, Dealt crew w v ∧ v.now = w.now ∧
        m = ⟨i, .calling c ((v.call crew i c).1.due v.now) (v.call crew i c).1.result .done⟩)
        clients members := by
  induction clients generalizing launched w with
  | nil =>
    refine ⟨w, [], .tick .start ?_, rfl, .nil⟩
    rw [List.append_nil]
    rfl
  | cons i rest ih =>
    have htick : Running.tick crew ⟨none, none⟩ w
        (⟨launched, .going (.launchAll c next (i :: rest))⟩ : Running n α) =
          .on (w.call crew i c).2 ⟨launched ++ [⟨i, .calling c ((w.call crew i c).1.due w.now)
            (w.call crew i c).1.result .done⟩], .going (.launchAll c next rest)⟩ := rfl
    obtain ⟨w', members, hcomes, hnow, hmembers⟩ := ih _ (w.call crew i c).2
    rw [List.append_assoc] at hcomes
    refine ⟨w', _, hcomes.head htick, hnow, .cons ⟨w, .start, rfl, rfl⟩ (hmembers.imp ?_)⟩
    rintro j m ⟨v, hdealt, hv, rfl⟩
    exact ⟨v, (Dealt.start.call i c).trans hdealt, hv, rfl⟩

/-! ### The end of an activity -/

namespace Activity

variable {P : World σ n → Fault → Prop} {Q : World σ n → α → Prop} {R : World σ n → β → Prop}

/-- An activity comes to its end: to a result, or to a fault of its own, that satisfies a condition
together with the world by then. -/
def Finishes (crew : Crew n) (w : World σ n) (P : World σ n → Fault → Prop)
    (Q : World σ n → α → Prop) (a : Activity n α) : Prop :=
  ∃ w' result, Running.Comes crew ⟨none, none⟩ w ⟨[], .going a⟩ w' ⟨[], .going (lift result)⟩ ∧
    Meets (P w') (Q w') result

theorem Finishes.bind {a : Activity n α} {f : α → Activity n β} (ha : a.Finishes crew w P Q)
    (hf : ∀ w' x, Running.Comes crew ⟨none, none⟩ w ⟨[], .going a⟩ w' ⟨[], .going (.done x)⟩ →
      Q w' x → (f x).Finishes crew w' P R) : (a.bind f).Finishes crew w P R := by
  obtain ⟨w₁, result, hcomes, hresult⟩ := ha
  have hbind := hcomes.andThen f
  cases result with
  | error e => exact ⟨w₁, .error e, hbind, hresult⟩
  | ok x =>
    obtain ⟨w', result, hrest, hmeets⟩ := hf w₁ x hcomes hresult
    exact ⟨w', result, hbind.trans hrest, hmeets⟩

theorem Finishes.mono {P' : World σ n → Fault → Prop} {Q' : World σ n → α → Prop} {a : Activity n α}
    (ha : a.Finishes crew w P Q) (hP : ∀ w' f, P w' f → P' w' f) (hQ : ∀ w' x, Q w' x → Q' w' x) :
    a.Finishes crew w P' Q' := by
  obtain ⟨w', result, hcomes, hresult⟩ := ha
  refine ⟨w', result, hcomes, ?_⟩
  cases result with
  | ok x => exact hQ w' x hresult
  | error f => exact hP w' f hresult

theorem finishes_sleep (ms : Nat) :
    (Activity.sleep ms).Finishes crew w P fun w' _ => w'.now = w.now + ms := by
  have hpausing : Running.Comes crew ⟨none, none⟩ w
      (⟨[], .going (Activity.sleep ms)⟩ : Running n Unit) w
      ⟨[], .pausing (w.now + ms) (.done ())⟩ := .tick .start rfl
  have hover : ∀ v : World σ n, w.now + ms ≤ v.now →
      Running.tick crew ⟨none, none⟩ v (⟨[], .pausing (w.now + ms) (.done ())⟩ : Running n Unit) =
        .on v ⟨[], .going (.done ())⟩ := by
    intro v hv
    simp only [Running.tick_eq, Running.advance, if_pos hv]
  by_cases hnow : w.now + ms ≤ w.now
  · have hsame : w.now = w.now + ms := by omega
    exact ⟨w, .ok (), hpausing.tick (hover w hnow), hsame⟩
  · have hwaits : Running.tick crew ⟨none, none⟩ w
          (⟨[], .pausing (w.now + ms) (.done ())⟩ : Running n Unit) =
        .on (w.atTime (w.now + ms)) ⟨[], .pausing (w.now + ms) (.done ())⟩ := by
      simp only [Running.tick_eq, Running.advance, if_neg hnow]
      rfl
    have hthen : (w.atTime (w.now + ms)).now = w.now + ms := Nat.max_eq_right (Nat.le_add_right _ _)
    exact ⟨w.atTime (w.now + ms), .ok (),
      (hpausing.tick hwaits).tick (hover _ (Nat.le_of_eq hthen.symm)), hthen⟩

/-- Chains that last for a limited time, side by side, while nobody else claims the focus. -/
theorem finishes_together {clients : List (Fin n)} {chain : Fin n → Chain κ}
    {result : Fin n → κ.Answer}
    {every bound : Nat} (hapart : crew.Apart clients) (hfree : w.claims = [])
    (hregular : ∀ i, (chain i).Regular every)
    (hlasts : ∀ i ∈ clients, ∃ u ≤ w.now + bound,
      (chain i).Lasts w.now (w.clients.get i) u (result i)) :
    (together (clients.map fun i => (i, chain i))).Finishes crew w P
      fun w' _ => ∃ t ≤ bound, w'.now = w.now + t := by
  have hunrivalled : ∀ i, w.Unrivalled crew i := by
    intro i
    left
    rw [hfree]
    rfl
  have hlasts' : ∀ i, ∃ u, i ∈ clients →
      u ≤ w.now + bound ∧ (chain i).Lasts w.now (w.clients.get i) u (result i) := by
    intro i
    by_cases hi : i ∈ clients
    · obtain ⟨u, hu, hlast⟩ := hlasts i hi
      exact ⟨u, fun _ => ⟨hu, hlast⟩⟩
    · exact ⟨0, fun hmem => absurd hmem hi⟩
  choose ends hends using hlasts'
  have halone : ∀ i ∈ clients,
      (⟨i, .ready (chain i)⟩ : Member n κ).EndsAlone crew w (ends i) (.ok (result i)) :=
    fun i hi => (hends i hi).2.endsAlone rfl rfl (hunrivalled i)
  obtain ⟨T, hle, hlast⟩ := exists_latest clients ends w.now
  have hwithin : w.now ≤ T ∧ T ≤ w.now + bound := by
    rcases hlast with ⟨-, rfl⟩ | ⟨i, hi, rfl⟩
    · exact ⟨Nat.le_refl _, Nat.le_add_right _ _⟩
    · exact ⟨(halone i hi).now_le, (hends i hi).1⟩
  obtain ⟨w', hcomes, hnow⟩ :=
    Group.comes_of_endsAlone every (fun i => ⟨i, .ready (chain i)⟩) ends result
    (fun _ => rfl) hapart (fun i => .inr ⟨chain i, rfl, hregular i⟩) halone hle hlast .done
  have hgather : Running.tick crew ⟨none, none⟩ w
      (⟨[], .going (together (clients.map fun i => (i, chain i)))⟩ : Running n (List κ.Answer)) =
        .on w ⟨[], .grouped ⟨clients.map fun i => ⟨i, .ready (chain i)⟩, 0⟩ .done⟩ := by
    simp only [Running.tick_eq, Running.advance, together, Group.ofChains, List.map_map]
    rfl
  refine ⟨w', .ok (clients.map result), hcomes.head hgather, w'.now - w.now, ?_, ?_⟩ <;> omega

/-- An action that takes everybody the same time lasts so long, if there is anybody. -/
theorem finishes_launchAll {c : Call .nothing} {ms : Nat}
    (hreply : ∀ (t : Nat) (s : σ), (ClientModel.reply t c s).1 = ⟨some ms, .ok ()⟩)
    {clients : List (Fin n)} (hapart : crew.Apart clients) (x : α) :
    (launchAll c (.done x) clients).Finishes crew w P
      fun w' _ => w'.now = if clients = [] then w.now else w.now + ms := by
  obtain ⟨w₁, members, hlaunched, hnow₁, hmembers⟩ :=
    Running.comes_launchAll crew c (.done x) clients [] w
  have hsame : members = clients.map fun i =>
      ⟨i, .calling c (some (w.now + ms)) (.ok ()) .done⟩ := by
    rw [← List.forall₂_eq_eq_eq, List.forall₂_map_right_iff]
    refine hmembers.flip.imp ?_
    rintro m i ⟨v, -, hv, rfl⟩
    have hcall : (v.call crew i c).1 = ⟨some ms, .ok ()⟩ := hreply v.now (v.clients.get i)
    rw [hcall, hv]
    rfl
  rw [List.nil_append, hsame] at hlaunched
  have halone : ∀ i ∈ clients,
      (⟨i, .calling c (some (w.now + ms)) (.ok ()) .done⟩ : Member n .nothing).EndsAlone
      crew w₁ (w.now + ms) (.ok ()) := by
    intro i _
    have hdone := Member.endsAlone_done (κ :=
      .nothing) crew i ((w₁.atTime (w.now + ms)).answered i c ()) ()
    have hthen : ((w₁.atTime (w.now + ms)).answered i c ()).now = w.now + ms := by
      show max w₁.now (w.now + ms) = w.now + ms
      omega
    rw [hthen] at hdone
    exact Member.endsAlone_calling hdone
  have hlast : clients = [] ∧ (if clients = [] then w.now else w.now + ms) = w₁.now ∨
      ∃ i ∈ clients, w.now + ms = if clients = [] then w.now else w.now + ms := by
    cases clients with
    | nil => exact .inl ⟨rfl, hnow₁.symm⟩
    | cons i rest => exact .inr ⟨i, List.mem_cons_self, rfl⟩
  have hle : ∀ i ∈ clients, w.now + ms ≤ if clients = [] then w.now else w.now + ms := by
    intro i hi
    rw [if_neg (List.ne_nil_of_mem hi)]
  obtain ⟨w', hcomes, hnow⟩ := Group.comes_of_endsAlone 0
    (fun i => ⟨i, .calling c (some (w.now + ms)) (.ok ()) .done⟩) (fun _ => w.now + ms)
    (fun _ => ()) (fun _ => rfl) hapart (fun i => .inl ⟨c, _, _, rfl⟩) halone hle hlast
    fun _ => .done x
  exact ⟨w', .ok x, hlaunched.trans hcomes, hnow⟩

end Activity

end BotScript
