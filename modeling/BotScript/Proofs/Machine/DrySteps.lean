import BotScript.CommandLine.DryRun
import BotScript.Proofs.Activity.Lasting
import BotScript.Proofs.Machine.Actions
import BotScript.Proofs.Machine.Focus
import BotScript.Proofs.Machine.Waiting

/-!
# Steps with dry-run clients

Dry-run clients answer every call, and nearly always at once: only a key press takes as long as the
key is held. Their answers alternate, so whatever is waited for comes with the second question at
the latest. So every instruction comes to its end with them, in a time that can be told beforehand,
and none fails on their account.

## Main definitions

* `Instruction.Takes`: the time that an instruction takes with dry-run clients.
* `Fault.IsOfClient`: the faults of clients.

## Main results

* `Action.perform_finishes`, `Machine.plan_finishes`: the end of an action and of an instruction,
  and when it comes.
* `Machine.dry_steps_finish`: every step finishes.
-/

namespace BotScript

open Activity World Cast

/-! ### Replies -/

/-- Whether a call is a key press, which takes its time. -/
def Call.isPress {κ : AnswerKind} : Call κ → Bool
  | .sendKey .. => true
  | _ => false

namespace DryRun

variable {κ : AnswerKind}

/-- Questions are answered at once. -/
theorem reply_question {c : Call κ} (hc : IsQuestion ⟨κ, c⟩) (s : DryRun) :
    ∃ a, (s.reply c).1 = ⟨some 0, .ok a⟩ := by
  cases c with
  | inDialog | inBattle | isFree | isLoading | windowVisible | zone | windowText | questPosition =>
    exact ⟨_, rfl⟩
  | _ => exact absurd rfl hc

/-- Actions other than key presses are carried out at once. -/
theorem reply_action {c : Call .nothing} (hc : c.isPress = false) (s : DryRun) :
    (s.reply c).1 = ⟨some 0, .ok ()⟩ := by
  cases c with
  | sendKey key seconds => cases hc
  | _ => rfl

/-- A key press takes as long as the key is held. -/
theorem reply_sendKey {seconds : Float} {d : Duration} (hd : Duration.ofSeconds seconds = .ok d)
    (key : String) (s : DryRun) : (s.reply (.sendKey key seconds)).1 = ⟨some d.ticks, .ok ()⟩ := by
  simp [reply, hold, hd]

theorem reply_truth (c : Call .truth) (s : DryRun) :
    s.reply c = (⟨some 0, .ok s.flip⟩, s.flipped) := by
  cases c <;> rfl

/-- Adding one changes whether a counter is even, also when it wraps around. -/
theorem even_succ (x : UInt64) : ((x + 1) % 2 == 0) = !(x % 2 == 0) := by
  have hone : (1 : UInt64).toNat = 1 := rfl
  have htwo : (2 : UInt64).toNat = 2 := rfl
  have heven : ∀ y : UInt64, y % 2 = 0 ↔ y.toNat % 2 = 0 := by
    intro y
    rw [← UInt64.toNat_inj, UInt64.toNat_mod, htwo]
    rfl
  have hparity : (x + 1) % 2 = 0 ↔ ¬ x % 2 = 0 := by
    rw [heven, heven, UInt64.toNat_add, hone]
    omega
  by_cases hx : x % 2 = 0
  · have hnext : (x + 1) % 2 ≠ 0 := fun h => hparity.1 h hx
    simp [hx, hnext]
  · simp [hx, hparity.2 hx]

theorem flip_flipped (s : DryRun) : s.flipped.flip = !s.flip := even_succ s.flips

theorem zone_next (s : DryRun) :
    ({ s with zoneQueries := s.zoneQueries + 1 } : DryRun).zone ≠ s.zone := by
  unfold zone
  rw [even_succ]
  cases s.zoneQueries % 2 == 0 with
  | true => decide
  | false => decide

/-- The clients of a dry run are apart. -/
theorem crew_apart (n : Nat) : (crew n).Apart (List.finRange n) := by
  refine (List.pairwise_lt_finRange n).imp fun {i j} hlt => ?_
  have hfocus : ((crew n).get i).focus = none := by
    simp [crew, Vector.get]
  simp [Crew.sameFocus, hfocus, Fin.ne_of_lt hlt]

/-! ### Chains -/

theorem lasts_once {c : Call .nothing} (hc : c.isPress = false) (t : Nat) (s : DryRun) :
    (Chain.once c).Lasts t s t () := by
  have hreply : ClientModel.reply t c s = (⟨some 0, .ok ()⟩, (s.reply c).2) :=
    Prod.ext (reply_action hc s) rfl
  exact .call hreply (.done _ _ _)

theorem lasts_questChain (t : Nat) (s : DryRun) : questChain.Lasts t s t () :=
  .call rfl (lasts_once rfl t s)

theorem lasts_friendChain (f : Friend) (t : Nat) (s : DryRun) : (friendChain f).Lasts t s t () :=
  .focus (lasts_once rfl t s)

theorem lasts_windowChain (path : List String) (t : Nat) (s : DryRun) :
    (windowChain path).Lasts t s t (Text.joinPath path) :=
  .call rfl (.done _ _ _)

/-- What is waited for comes at once, or after one rest. -/
theorem lasts_poll (c : Call .truth) (wanted : Bool) {enough : Bool → Bool}
    (henough : ∀ b, enough b = (b == wanted)) (every t : Nat) (s : DryRun) {next : Chain .nothing}
    (hnext : ∀ (u : Nat) (s' : DryRun), s'.flip = !wanted → next.Lasts u s' u ()) :
    ∃ u ≤ t + every, Chain.Lasts t s (.poll c enough every next) u () := by
  have hreply : ∀ (t : Nat) (s : DryRun), ClientModel.reply t c s =
      (⟨some 0, .ok s.flip⟩, s.flipped) :=
    fun _ s => reply_truth c s
  by_cases hwanted : s.flip = wanted
  · refine ⟨t, Nat.le_add_right t every, .poll (hreply t s) ?_⟩
    simp only [henough, hwanted, beq_self_eq_true, if_true, Nat.add_zero]
    exact hnext t s.flipped (by rw [flip_flipped, hwanted])
  · -- The next answer is the other one.
    have hthen : s.flipped.flip = wanted := by
      rw [flip_flipped]
      cases wanted <;> simpa using hwanted
    refine ⟨t + every, Nat.le_refl _, .poll (hreply t s) ?_⟩
    simp only [henough, beq_eq_false_iff_ne.2 hwanted, Bool.false_eq_true, if_false]
    refine .rest (.poll (hreply _ _) ?_)
    simp only [henough, hthen, beq_self_eq_true, if_true, Nat.add_zero]
    exact hnext (t + every) s.flipped.flipped (by rw [flip_flipped, hthen])

theorem lasts_waitChain (c : Call .truth) (completion : Bool) (every t : Nat) (s : DryRun) :
    ∃ u ≤ t + every, (waitChain c completion every).Lasts t s u () := by
  refine lasts_poll c true (fun b => by simp) every t s fun u s' hflip => ?_
  cases completion with
  | false => exact .done _ _ _
  | true =>
    -- After a yes the next answer is no, so completion takes no time.
    have hreply : ClientModel.reply u c s' = (⟨some 0, .ok s'.flip⟩, s'.flipped) := reply_truth c s'
    refine .poll hreply ?_
    simp only [hflip, Bool.not_true, Bool.not_false, if_true, Nat.add_zero]
    exact .done _ _ _

theorem lasts_loadedChain (every t : Nat) (s : DryRun) :
    ∃ u ≤ t + every, (loadedChain every).Lasts t s u () :=
  lasts_poll .isLoading false (fun b => by simp) every t s fun _ _ _ => .done _ _ _

/-- A client that is not in a zone any more has left it. -/
theorem lasts_leaveChain {start : String} (every t : Nat) {s : DryRun} (hzone : s.zone ≠ start) :
    (leaveChain start every).Lasts t s t () := by
  have hreply : ClientModel.reply t Call.zone s =
      (⟨some 0, .ok s.zone⟩, { s with zoneQueries := s.zoneQueries + 1 }) := rfl
  refine .poll hreply ?_
  have hleft : (s.zone != start) = true := by simpa using hzone
  simp only [hleft, if_true, Nat.add_zero]
  exact .done _ _ _

end DryRun

variable {n : Nat} {α β : Type} {crew : Crew n} {vars : Variables} {w : World DryRun n}

/-! ### Faults of operands -/

/-- A fault of a client: a call has failed, or there is no such window. -/
def Fault.IsOfClient : Fault → Prop
  | client .. | windowNotFound _ => True
  | _ => False

theorem Fault.IsOperand.not_isOfClient {f : Fault} (h : f.IsOperand) : ¬ f.IsOfClient := by
  cases f <;> first | exact id | exact h.elim

/-! ### Questions and operands -/

/-- With dry-run clients, an activity that only asks comes to its end at once. -/
theorem Activity.Asks.finishes {a : Activity n α} (h : a.Asks) {P : Fault → Prop} {Q : α → Prop}
    (hensures : a.Ensures P Q) (crew : Crew n) (w : World DryRun n) :
    a.Finishes crew w (fun _ f => P f) fun w' x => Q x ∧ w'.now = w.now := by
  induction a generalizing w with
  | done x => exact ⟨w, .ok x, .start, hensures, rfl⟩
  | fail f => exact ⟨w, .error f, .start, hensures⟩
  | ask who c next ih =>
    obtain ⟨a, ha⟩ := DryRun.reply_question h.1 (w.clients.get who)
    have hreply : (w.call crew who c).1 = ⟨some 0, .ok a⟩ := ha
    have hasked := (Running.comes_ask w hreply next).tick
      (Running.tick_of_answered (Nat.le_max_right _ _))
    obtain ⟨w', result, hcomes, hmeets⟩ := ih a (h.2 a) (hensures a)
      (((w.call crew who c).2.atTime (w.now + 0)).answered who c a)
    have hnow : (((w.call crew who c).2.atTime (w.now + 0)).answered who c a).now = w.now :=
      Nat.max_self _
    rw [hnow] at hmeets
    exact ⟨w', result, hasked.trans hcomes, hmeets⟩
  | pause | launch | join | gather => exact h.elim

/-- With dry-run clients, an activity that is futile fails as operands do. -/
theorem finishes_of_futile {a : Activity n α} (hfutile : a.Futile) (hmere : a.Mere) (crew : Crew n)
    (w : World DryRun n) {Q : World DryRun n → α → Prop} :
    a.Finishes crew w (fun _ f => ¬ f.IsOfClient) Q := by
  refine (hfutile.1.finishes (hmere.and hfutile.2) crew w).mono (fun _ f hf =>
    hf.1.not_isOfClient) ?_
  rintro w' x ⟨⟨-, hfalse⟩, -⟩
  exact hfalse.elim

/-- With dry-run clients, an operand that is there at once or never is there, or fails
as operands do. -/
theorem finishes_operand {a : Activity n α} (hcases : (∃ x, a = .done x) ∨ a.Futile)
    (hmere : a.Mere) (crew : Crew n) (w : World DryRun n) :
    a.Finishes crew w (fun _ f => ¬ f.IsOfClient) fun w' x => a = .done x ∧ w' = w := by
  rcases hcases with ⟨x, rfl⟩ | hfutile
  · exact ⟨w, .ok x, .start, rfl, rfl⟩
  · exact finishes_of_futile hfutile hmere crew w

/-! ### Actions -/

/-- A number of milliseconds is a length of time, rounded up. -/
def Duration.RoundsTo (d : Duration) (ms : Nat) : Prop :=
  d.nanoseconds ≤ ms * 1000000 ∧ ms * 1000000 < d.nanoseconds + 1000000

theorem Duration.roundsTo_ticks (d : Duration) : d.RoundsTo d.ticks := by
  unfold RoundsTo ticks
  omega

theorem secondsOperand_ok {instruction : String} {seconds : Float} {d : Duration}
    (h : secondsOperand instruction seconds = .ok d) : Duration.ofSeconds seconds = .ok d := by
  unfold secondsOperand at h
  split at h
  · rename_i d' hd
    cases h
    exact hd
  · cases h

/-- How long a key is held. -/
def Action.HeldFor (crew : Crew n) (vars : Variables) (seconds : Float) : Option Expr → Prop
  | some e => e.evalNumber crew vars "sendkey" = .done seconds
  | none => seconds = defaultHold

/-- The time in milliseconds that an action takes some dry-run clients. -/
def Action.Takes (crew : Crew n) (every : Nat) (vars : Variables) (clients : List (Fin n))
    (ms : Nat) : Action → Prop
  | .sendKey _ hold => if clients = [] then ms = 0 else
    ∃ seconds d, HeldFor crew vars seconds hold ∧ Duration.ofSeconds seconds = .ok d ∧ d.RoundsTo ms
  | .waitFor _ => ms ≤ every
  | _ => ms = 0

/-- The time in milliseconds that an instruction takes with dry-run clients; `every` is how many
milliseconds they rest when they poll. -/
def Instruction.Takes (crew : Crew n) (every : Nat) (vars : Variables) (ms : Nat) :
    Instruction → Prop
  | .sleep e => ∃ seconds d, e.evalNumber crew vars "sleep" = .done seconds ∧
      Duration.ofSeconds seconds = .ok d ∧ d.RoundsTo ms
  | .act who a => a.Takes crew every vars (who.pick n) ms
  | _ => ms = 0

section Actions

variable {every : Nat} {clients : List (Fin n)} {P : World DryRun n → Fault → Prop}

theorem finishes_allDo {c : Call .nothing} {ms : Nat}
    (hreply : ∀ s : DryRun, (s.reply c).1 = ⟨some ms, .ok ()⟩) (hapart : crew.Apart clients) :
    (allDo clients c).Finishes crew w P
      fun w' _ => w'.now = if clients = [] then w.now else w.now + ms := by
  rw [allDo_eq]
  exact finishes_launchAll (fun _ s => hreply s) hapart ()

/-- Actions other than key presses take no time. -/
theorem finishes_allDo_at_once {c : Call .nothing} (hc : c.isPress = false)
    (hapart : crew.Apart clients) :
    (allDo clients c).Finishes crew w P fun w' _ => w'.now = w.now := by
  refine (finishes_allDo (DryRun.reply_action hc) hapart).mono (fun _ _ hf =>
    hf) fun w' _ hnow => ?_
  rwa [Nat.add_zero, ite_self] at hnow

theorem finishes_eachRun {κ : AnswerKind} {chain : Chain κ} {result : κ.Answer} {bound : Nat}
    (hapart : crew.Apart clients) (hfree : w.claims = []) (hregular : chain.Regular every)
    (hlasts : ∀ s : DryRun, ∃ u ≤ w.now + bound, chain.Lasts w.now s u result) :
    (eachRun chain clients).Finishes crew w P fun w' _ => ∃ t ≤ bound, w'.now = w.now + t :=
  finishes_together hapart hfree (fun _ => hregular) fun i _ => hlasts (w.clients.get i)

/-- A chain that takes no time, run by each of some clients. -/
theorem finishes_eachRun_at_once {κ : AnswerKind} {chain : Chain κ} {result : κ.Answer}
    (hapart : crew.Apart clients) (hfree : w.claims = []) (hregular : chain.Regular every)
    (hlasts : ∀ s : DryRun, chain.Lasts w.now s w.now result) :
    (eachRun chain clients).Finishes crew w P fun w' _ => w'.now = w.now := by
  have hwithin : ∀ s : DryRun, ∃ u ≤ w.now + 0, chain.Lasts w.now s u result :=
    fun s => ⟨w.now, Nat.le_refl _, hlasts s⟩
  refine (finishes_eachRun hapart hfree hregular hwithin).mono (fun _ _ hf => hf) ?_
  rintro w' - ⟨t, ht, hnow⟩
  omega

/-- Dry-run clients tell their zones at once, and then are in the other one. -/
theorem exists_readsZones (crew : Crew n) (hnodup : clients.Nodup) (w : World DryRun n) :
    ∃ start w', ReadsZones crew start clients w w' ∧ w'.now = w.now := by
  induction clients generalizing w with
  | nil => exact ⟨fun _ => "", w, .nil, rfl⟩
  | cons i rest ih =>
    obtain ⟨hi, hrest⟩ := List.nodup_cons.1 hnodup
    have hreply : (w.call crew i .zone).1 = ⟨some 0, .ok (w.clients.get i).zone⟩ := rfl
    obtain ⟨start, w', hread, hnow⟩ :=
      ih hrest (((w.call crew i .zone).2.atTime (w.now + 0)).answered i .zone
        (w.clients.get i).zone)
    exact ⟨_, w', hread.cons_update hi hreply, hnow.trans (Nat.max_self _)⟩

theorem zoneChange_finishes (completion : Bool) (hapart : crew.Apart clients)
    (hnodup : clients.Nodup) (hfree : w.claims = []) :
    (zoneChange every completion clients).Finishes crew w P fun w' _ => ∃ t ≤ every, w'.now =
      w.now + t := by
  obtain ⟨start, w₁, hread, hnow₁⟩ := exists_readsZones crew hnodup w
  have hzones : (zones clients).Finishes crew w P fun w' starts =>
      w' = w₁ ∧ starts = clients.map fun i => (i, start i) := by
    have hcomes := hread.comes .done
    rw [Activity.bind_done] at hcomes
    exact ⟨w₁, .ok _, hcomes, rfl, rfl⟩
  refine hzones.bind ?_
  rintro w' starts hcomes ⟨rfl, rfl⟩
  have hfree₁ : w'.claims = [] := List.subset_nil.1 (hfree ▸ hcomes.claims_subset)
  -- Whoever has told a zone is in the other one now.
  have hleft : ∀ i ∈ clients, ∃ u ≤ w'.now + 0,
      (leaveChain (start i) every).Lasts w'.now (w'.clients.get i) u () := by
    intro i hi
    obtain ⟨t, ms, hreply⟩ := hread.exists_reply hnodup hi
    have hstart : (w.clients.get i).zone = start i :=
      Except.ok.inj (congrArg (fun r : Reply .text × DryRun => r.1.result) hreply)
    have hthen : ({ w.clients.get i with zoneQueries :=
        (w.clients.get i).zoneQueries + 1 } : DryRun) = w'.clients.get i := congrArg Prod.snd hreply
    rw [← hstart, ← hthen]
    exact ⟨w'.now, Nat.le_refl _, DryRun.lasts_leaveChain every _ (DryRun.zone_next _)⟩
  have hregular : ∀ i, (leaveChain (start i) every).Regular every := fun _ => ⟨rfl, trivial⟩
  have hleave : (together (clients.map fun i => (i, leaveChain (start i) every))).Finishes crew w' P
      fun w₂ _ => ∃ t ≤ 0, w₂.now = w'.now + t := finishes_together hapart hfree₁ hregular hleft
  rw [List.map_map]
  refine hleave.bind ?_
  rintro w₂ _ hcomes₂ ⟨t, ht, hnow₂⟩
  have hfree₂ : w₂.claims = [] := List.subset_nil.1 (hfree₁ ▸ hcomes₂.claims_subset)
  have hsame : w₂.now = w.now := by omega
  cases completion with
  | false => exact ⟨w₂, .ok (), .start, 0, Nat.zero_le _, hsame⟩
  | true =>
    have hregular : (loadedChain every).Regular every := ⟨rfl, trivial⟩
    have hloaded := finishes_eachRun (P :=
      P) hapart hfree₂ hregular (DryRun.lasts_loadedChain every w₂.now)
    refine hloaded.bind ?_
    rintro w₃ - - ⟨t, ht, hnow₃⟩
    exact ⟨w₃, .ok (), .start, t, ht, hsame ▸ hnow₃⟩

theorem Wait.perform_finishes (wait : Wait) (hapart : crew.Apart clients) (hnodup : clients.Nodup)
    (hfree : w.claims = []) :
    (wait.perform every clients).Finishes crew w P fun w' _ => ∃ t ≤ every, w'.now = w.now + t := by
  have heach : ∀ c, (Wait.perform.each every clients wait c).Finishes crew w P
      fun w' _ => ∃ t ≤ every, w'.now = w.now + t := by
    intro c
    have hall := finishes_eachRun (P := P) hapart hfree (waitChain_regular c wait.completion)
      (DryRun.lasts_waitChain c wait.completion every w.now)
    exact hall.bind fun w' _ _ hnow => ⟨w', .ok (), .start, hnow⟩
  unfold Wait.perform
  split
  · exact heach _
  · exact heach _
  · exact heach _
  · exact heach _
  · exact zoneChange_finishes wait.completion hapart hnodup hfree

/-- Holding a key takes its time, if anybody does. -/
theorem Action.sendKey_finishes (key : Expr) (hold : Option Expr) (hapart : crew.Apart clients) :
    ((Action.sendKey key hold).perform crew every vars clients).Finishes crew w
      (fun _ f => ¬ f.IsOfClient)
      fun w' _ => ∃ t, (Action.sendKey key hold).Takes crew every vars clients t ∧
      w'.now = w.now + t := by
  have hpress : ∀ (k : String) (seconds : Float), HeldFor crew vars seconds hold →
      ((lift (secondsOperand "sendkey" seconds)).bind fun _ =>
        allDo clients (.sendKey k seconds)).Finishes crew w
        (fun _ f => ¬ f.IsOfClient)
        fun w' _ => ∃ t, (Action.sendKey key hold).Takes crew every vars clients t ∧
        w'.now = w.now + t := by
    intro k seconds hheld
    cases hd : secondsOperand "sendkey" seconds with
    | error f =>
      have hmere := secondsOperand_mere "sendkey" seconds
      rw [hd] at hmere
      exact ⟨w, .error f, .start, hmere.not_isOfClient⟩
    | ok d =>
      refine (finishes_allDo (DryRun.reply_sendKey (secondsOperand_ok hd) k) hapart).mono
        (fun _ _ hf => hf) ?_
      intro w' _ hnow
      by_cases hnobody : clients = []
      · exact ⟨0, by simp [Takes, hnobody], by simpa [hnobody] using hnow⟩
      · refine ⟨d.ticks, ?_, by simpa [hnobody] using hnow⟩
        simp only [Takes, hnobody, if_false]
        exact ⟨seconds, d, hheld, secondsOperand_ok hd, d.roundsTo_ticks⟩
  have hkey := finishes_operand (key.evalKey_cases crew vars) (key.evalKey_mere crew vars) crew w
  refine hkey.bind ?_
  rintro _ k - ⟨-, hw⟩
  rw [hw]
  cases hold with
  | none => exact hpress k defaultHold rfl
  | some e =>
    have hheld := finishes_operand (e.evalNumber_cases crew vars "sendkey")
      (e.evalNumber_mere crew vars _) crew w
    refine hheld.bind ?_
    rintro _ seconds - ⟨hseconds, hw⟩
    rw [hw]
    exact hpress k seconds hseconds

/-- Whatever an action demands other than a key press is done at once. -/
theorem Action.Demands.isPress_eq_false {a : Action} {c : Call .nothing} (h : a.Demands crew vars c)
    (ha : ∀ key hold, a ≠ .sendKey key hold) : c.isPress = false := by
  cases h with
  | press | tap => exact absurd rfl (ha _ _)
  | _ => rfl

/-- An action that is started on all clients, and is no key press, takes no time. -/
theorem Action.started_finishes {a : Action} (hstarted : a.isStarted = true)
    (ha : ∀ key hold, a ≠ .sendKey key hold) (hapart : crew.Apart clients) :
    (a.perform crew every vars clients).Finishes crew w (fun _ f => ¬ f.IsOfClient)
      fun w' _ => w'.now = w.now := by
  rcases a.perform_cases crew every vars clients hstarted with
    ⟨c, hdemands, hperform⟩ | ⟨rfl, hperform⟩ | hfutile
  · rw [hperform]
    exact finishes_allDo_at_once (hdemands.isPress_eq_false ha) hapart
  · rw [hperform]
    exact finishes_allDo_at_once (c := .relog) rfl hapart
  · exact finishes_of_futile hfutile (a.perform_mere ..) crew w

/-- With dry-run clients, every action comes to its end, in its time. -/
theorem Action.perform_finishes (a : Action) (hapart : crew.Apart clients) (hnodup : clients.Nodup)
    (hfree : w.claims = []) :
    (a.perform crew every vars clients).Finishes crew w (fun _ f => ¬ f.IsOfClient)
      fun w' _ => ∃ t, a.Takes crew every vars clients t ∧ w'.now = w.now + t := by
  have hatOnce : ∀ {a : Action}, a.isStarted = true → (∀ key hold, a ≠ .sendKey key hold) →
      (a.perform crew every vars clients).Finishes crew w (fun _ f => ¬ f.IsOfClient)
        fun w' _ => ∃ t, t = 0 ∧ w'.now = w.now + t := fun hstarted ha =>
    (started_finishes hstarted ha hapart).mono (fun _ _ hf => hf) fun _ _ hnow => ⟨0, rfl, hnow⟩
  have hchain : ∀ {chain : Chain .nothing}, chain.Regular every →
      (∀ s : DryRun, chain.Lasts w.now s w.now ()) →
      ((eachRun chain clients).bind fun _ => .done ()).Finishes crew w (fun _ f => ¬ f.IsOfClient)
        fun w' _ => ∃ t, t = 0 ∧ w'.now = w.now + t := fun hregular hlasts =>
    (finishes_eachRun_at_once hapart hfree hregular hlasts).bind fun w' _ _ hnow =>
      ⟨w', .ok (), .start, 0, rfl, hnow⟩
  cases a with
  | sendKey key hold => exact sendKey_finishes key hold hapart
  | waitFor wait => exact wait.perform_finishes hapart hnodup hfree
  | teleport goal =>
    cases goal with
    | quest => exact hchain (fun _ _ => trivial) (DryRun.lasts_questChain w.now)
    | friendIcon => exact hchain (fun _ => trivial) (DryRun.lasts_friendChain _ w.now)
    | friendName name => exact hchain (fun _ => trivial) (DryRun.lasts_friendChain _ w.now)
    | position | entity | entityLike | mob => exact hatOnce rfl nofun
  | click | goTo | usePotion | buyPotions | relog | toZone => exact hatOnce rfl nofun

end Actions

/-! ### Instructions that only ask -/

/-- What may be faulty is never so on account of a client. -/
abbrev BlamesNoClient (e : Except Fault α) :
    Prop := Meets (fun f => ¬ f.IsOfClient) (fun _ => True) e

theorem BlamesNoClient.map {e : Except Fault α} (h : BlamesNoClient e) (f : α → β) :
    BlamesNoClient (e.map f) := by
  cases e with
  | ok x => trivial
  | error _ => exact h

/-- An activity does nothing but ask, and of itself never fails on account of a client. -/
def Activity.Inquires (a : Activity n α) :
    Prop := a.Asks ∧ a.Ensures (fun f => ¬ f.IsOfClient) fun _ => True

namespace Activity

theorem Inquires.bind {a : Activity n α} {f : α → Activity n β} (ha : a.Inquires)
    (hf : ∀ x, (f x).Inquires) :
    (a.bind f).Inquires :=
  ⟨ha.1.andThen fun x => (hf x).1, ha.2.andThen fun x => (hf x).2⟩

theorem inquires_done (x : α) : (done x : Activity n α).Inquires := ⟨trivial, trivial⟩

theorem inquires_lift {e : Except Fault α} (h : BlamesNoClient e) :
    (lift e : Activity n α).Inquires :=
  ⟨asks_lift e, ensures_lift h⟩

theorem inquires_of_mere {a : Activity n α} (hasks : a.Asks) (hmere : a.Mere) : a.Inquires :=
  ⟨hasks, hmere.mono (fun _ hf => hf.not_isOfClient) fun _ hx => hx⟩

end Activity

theorem Expr.evalCondition_inquires (crew : Crew n) (vars : Variables) (e : Expr) :
    (e.evalCondition crew vars).Inquires :=
  inquires_of_mere ((e.eval_asks crew vars).andThen fun _ =>
    asks_lift _) (e.evalCondition_mere crew vars)

/-- Whether an instruction does nothing with clients but ask them, one after the other,
and does not wait. -/
def Instruction.onlyAsks : Instruction → Bool
  | .sleep _ | .logWindow .. | .act .. | .loadPlaystyle .. => false
  | _ => true

namespace Machine

theorem target_blames_no_client (m : Machine) (offset : Int64) :
    BlamesNoClient (m.target offset) := by
  unfold target
  split
  · trivial
  · exact id

theorem label_blames_no_client (m : Machine) (name : String) : BlamesNoClient (m.label name) := by
  unfold label
  split
  · trivial
  · exact id

theorem lessOne_blames_no_client (m : Machine) (name : String) :
    BlamesNoClient (m.lessOne name) := by
  unfold lessOne
  split
  · trivial
  · exact id
  · exact id

/-- Instructions that only ask never fail on account of a client of themselves. -/
theorem plan_inquires (crew : Crew n) (every : Nat) (m : Machine) {i : Instruction}
    (hi : i.onlyAsks = true) :
    (m.plan crew every i).Inquires := by
  have hleap := fun offset : Int64 =>
    inquires_lift (n := n) ((m.target_blames_no_client offset).map fun place =>
      Effect.mk (m.goTo place) [])
  cases i with
  | kill | logLiteral | label | nop => exact inquires_done _
  | jump offset =>
    rw [plan_jump]
    split
    · refine (Expr.evalCondition_inquires crew m.vars _).bind fun yes => ?_
      cases yes with
      | true => exact inquires_done _
      | false => exact hleap offset
    · exact hleap offset
  | jumpIf test offset =>
    rw [plan_jumpIf]
    refine (test.evalCondition_inquires crew m.vars).bind fun yes => ?_
    cases yes with
    | true => exact hleap offset
    | false => exact inquires_done _
  | jumpIfNot test offset =>
    rw [plan_jumpIfNot]
    refine (test.evalCondition_inquires crew m.vars).bind fun yes => ?_
    cases yes with
    | true => exact inquires_done _
    | false => exact hleap offset
  | enterUntil test offset =>
    rw [plan_enterUntil]
    exact inquires_lift ((m.target_blames_no_client offset).map _)
  | call name =>
    rw [plan_call]
    exact inquires_lift ((m.label_blames_no_client name).map _)
  | ret =>
    rw [plan_ret]
    split
    · exact inquires_done _
    · exact inquires_lift id
  | assign name e =>
    have heval := inquires_of_mere (e.eval_asks crew m.vars) (e.eval_mere crew m.vars)
    exact heval.bind fun _ => inquires_done _
  | decrement name =>
    rw [plan_decrement]
    exact inquires_lift ((m.lessOne_blames_no_client name).map _)
  | sleep | logWindow | act | loadPlaystyle => cases hi

/-- With dry-run clients, every instruction comes to its end, in its time. -/
theorem plan_finishes (hapart : crew.Apart (List.finRange n)) (every : Nat) (m : Machine)
    (i : Instruction) (hfree : w.claims = []) :
    (m.plan crew every i).Finishes crew w (fun _ f => ¬ f.IsOfClient)
      fun w' _ => ∃ t, i.Takes crew every m.vars t ∧ w'.now = w.now + t := by
  have hpick : ∀ who : Selector, crew.Apart (who.pick n) := fun who => List.Pairwise.filter _ hapart
  -- Whatever only asks takes no time.
  have hasks : ∀ {i : Instruction}, i.onlyAsks = true →
      (m.plan crew every i).Finishes crew w (fun _ f => ¬ f.IsOfClient)
        fun w' _ => ∃ t, t = 0 ∧ w'.now = w.now + t := by
    intro i hi
    have hinquires := m.plan_inquires crew every hi
    exact (hinquires.1.finishes hinquires.2 crew w).mono (fun _ _ hf => hf) fun _ _ hend =>
      ⟨0, rfl, hend.2⟩
  cases i with
  | sleep duration =>
    have hoperand := finishes_operand (duration.evalNumber_cases crew m.vars "sleep")
      (duration.evalNumber_mere crew m.vars _) crew w
    have hrest : (duration.rest crew m.vars).Finishes crew w (fun _ f => ¬ f.IsOfClient)
        fun w' _ => ∃ t, (Instruction.sleep duration).Takes crew every m.vars t ∧
        w'.now = w.now + t := by
      refine hoperand.bind ?_
      rintro _ seconds - ⟨hseconds, hw⟩
      rw [hw]
      cases hd : secondsOperand "sleep" seconds with
      | error f =>
        have hmere := secondsOperand_mere "sleep" seconds
        rw [hd] at hmere
        exact ⟨w, .error f, .start, hmere.not_isOfClient⟩
      | ok d =>
        refine (finishes_sleep d.ticks).mono (fun _ _ hf => hf) fun w' _ hnow => ?_
        exact ⟨d.ticks, ⟨seconds, d, hseconds, secondsOperand_ok hd, d.roundsTo_ticks⟩, hnow⟩
    exact hrest.bind fun w' _ _ htakes => ⟨w', .ok _, .start, htakes⟩
  | logWindow who path =>
    have hregular : (windowChain path).Regular every := windowChain_regular path
    have htexts := finishes_eachRun_at_once (P :=
      fun _ f => ¬ f.IsOfClient) (hpick who) hfree hregular
      (DryRun.lasts_windowChain path w.now)
    have hlines : (windowLines crew path (who.pick n)).Finishes crew w (fun _ f => ¬ f.IsOfClient)
        fun w' _ => w'.now = w.now := htexts.bind fun w' _ _ hnow => ⟨w', .ok _, .start, hnow⟩
    rw [plan_logWindow]
    exact hlines.bind fun w' _ _ hnow => ⟨w', .ok _, .start, 0, rfl, hnow⟩
  | act who a =>
    refine (a.perform_finishes (hpick who) (who.pick_nodup n) hfree).bind fun w' _ _ htakes => ?_
    exact ⟨w', .ok _, .start, htakes⟩
  | loadPlaystyle who text =>
    refine (finishes_allDo_at_once rfl (hpick who)).bind fun w' _ _ hnow => ?_
    exact ⟨w', .ok _, .start, 0, rfl, hnow⟩
  | _ => exact hasks rfl

/-- With enough fuel, the next instruction is carried out on dry-run clients, or fails
without their fault. -/
theorem exists_dry_step (hapart : crew.Apart (List.finRange n)) (every : Nat)
    (hfree : w.claims = []) {m : Machine} {i : Instruction} (hrunning : m.running = true)
    (hi : m.instruction? = some i) :
    ∃ enough r w' m', (∀ fuel ≥ enough, m.step crew every ⟨none, none⟩ fuel w = (r, w', m')) ∧
      w'.claims = [] ∧
      (r.isDone = true ∧ (∃ ms, i.Takes crew every m.vars ms ∧ w'.now = w.now + ms) ∨
        ∃ f, r = .failed f ∧ ¬ f.IsOfClient) := by
  obtain ⟨u, result, hcomes, hmeets⟩ := plan_finishes hapart every m i hfree
  have hfree' : u.claims = [] := List.subset_nil.1 (hfree ▸ hcomes.claims_subset)
  have hhalt : Running.tick crew ⟨none, none⟩ u (⟨[], .going (lift result)⟩ : Running n Effect) =
      .halt (.ended u result) := by
    cases result <;> rfl
  obtain ⟨enough, hstep⟩ := exists_step_of_halt hrunning hi hcomes hhalt
  cases result with
  | error f =>
    exact ⟨enough, .failed f, u, m, fun fuel hle => step_eq_of_le hle hstep nofun, hfree',
      .inr ⟨f, rfl, hmeets⟩⟩
  | ok effect =>
    have hdone : (m.conclude (.ended u (.ok effect))).1.isDone = true := by
      simp only [conclude]
      split <;> rfl
    refine ⟨enough, _, u.log effect.lines, effect.machine.settle,
      fun fuel hle => step_eq_of_le hle hstep (StepResult.ne_outOfFuel hdone), ?_, .inl ⟨hdone, ?_⟩⟩
    · rw [log_claims, hfree']
    · rwa [World.log_now]

/-- The time in milliseconds that a step of a machine takes with dry-run clients. -/
def Takes (crew : Crew n) (every : Nat) (m : Machine) (ms : Nat) : Prop :=
  match m.instruction? with
  | some i => if m.running then i.Takes crew every m.vars ms else ms = 0
  | none => ms = 0

/-- Every step finishes on dry-run clients that are apart, whatever their state, as long as nobody
claims the input focus; then again nobody does. It never fails on account of a client, and if it is
done, it has taken its time. -/
theorem dry_steps_finish (crew : Crew n) (hapart : crew.Apart (List.finRange n)) (every : Nat)
    (w : World DryRun n) (hfree : w.claims = []) (m : Machine) :
    ∃ enough r w' m', (∀ fuel ≥ enough, m.step crew every ⟨none, none⟩ fuel w = (r, w', m')) ∧
      w'.claims = [] ∧
      (r.isDone = true ∧ (∃ ms, m.Takes crew every ms ∧ w'.now = w.now + ms) ∨
        ∃ f, r = .failed f ∧ ¬ f.IsOfClient) := by
  cases hrunning : m.running with
  | false =>
    refine ⟨0, .done 0, w, m, fun fuel _ => step_of_not_running hrunning, hfree,
      .inl ⟨rfl, 0, ?_, rfl⟩⟩
    unfold Takes
    cases m.instruction? <;> simp [hrunning]
  | true =>
    cases hi : m.instruction? with
    | none =>
      refine ⟨0, .done 0, w, m.stop, fun fuel _ => step_of_end hrunning hi, hfree,
        .inl ⟨rfl, 0, ?_, rfl⟩⟩
      simp only [Takes, hi]
    | some i =>
      have htakes : ∀ ms, m.Takes crew every ms ↔ i.Takes crew every m.vars ms := by
        intro ms
        simp only [Takes, hi, hrunning, if_true]
      simp only [htakes]
      exact exists_dry_step hapart every hfree hrunning hi

/-- Two clients that have been asked before, one of them so often that its counter of
truth values is full. -/
def wornOut : World DryRun 2 := .initial #v[⟨18446744073709551615, 1, 7⟩, ⟨4, 0, 0⟩]

/-- Everybody is to wait for a dialog and for its end. -/
def patient : Machine := about (.act .all (.waitFor ⟨.dialog, true⟩))

/-- The one with the full counter says no first, so the wait takes a rest. -/
theorem wornOut_wait_finishes :
    (DryRun.crew 2).Apart (List.finRange 2) ∧ wornOut.claims = [] ∧
      (patient.step (DryRun.crew 2) 50 ⟨none, none⟩ 30 wornOut).2.1.now = 50 ∧
      ∃ enough r w' m', (∀ fuel ≥ enough,
        patient.step (DryRun.crew 2) 50 ⟨none, none⟩ fuel wornOut = (r, w', m')) ∧ w'.claims = [] ∧
        (r.isDone = true ∧ (∃ ms, patient.Takes (DryRun.crew 2) 50 ms ∧ w'.now = wornOut.now + ms) ∨
          ∃ f, r = .failed f ∧ ¬ f.IsOfClient) := by
  have hapart := DryRun.crew_apart 2
  exact ⟨hapart, rfl, by rfl, dry_steps_finish (DryRun.crew 2) hapart 50 wornOut rfl patient⟩

end Machine

end BotScript
