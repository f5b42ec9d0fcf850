import BotScript.Machine.Performance
import BotScript.Proofs.Activity.PollFailure
import BotScript.Proofs.Activity.Sequel

/-!
# Asking clients one after the other

An activity that asks a client waits for the answer before it does anything else. So if the zones of
some clients are asked for, each client is asked when the one before it has answered, and a failure
is the end.

## Main definitions

* `ReadsZones`: some clients have told their zones, one after the other.
* `Reading`: the zones of some clients are being asked for.

## Main results

* `Running.Comes.of_ask`, `Running.comes_ask`: what comes of asking one client.
* `zones_comes`, `ReadsZones.comes`: what comes of asking some clients for their zones.
* `ReadsZones.of_since`: what happens meanwhile.
-/

namespace BotScript

open World

variable {σ : Type} {n : Nat} {ι : AnswerKind} {α : Type} [ClientModel σ] {crew : Crew n}
  {u v w w' : World σ n} {r' : Running n α} {i : Fin n} {c : Call ι} {t ms : Nat}

omit [ClientModel σ] in
theorem World.atTime_now_self (w : World σ n) (t : Nat) :
    w.atTime (w.atTime t).now = w.atTime t := by
  simp [atTime]

/-! ### Asking one client -/

namespace Running

variable {next : ι.Answer → Activity n α} {result : Except ClientError ι.Answer} {a : ι.Answer}
  {e : ClientError}

theorem tick_of_answered (h : t ≤ w.now) :
    tick crew ⟨none, none⟩ w (⟨[], .asking i c (some t) (.ok a) next⟩ : Running n α) =
      .on (w.answered i c a) ⟨[], .going (next a)⟩ := by
  simp [tick_eq, advance, isDue, h]

theorem tick_of_refused (h : t ≤ w.now) :
    tick crew ⟨none, none⟩ w (⟨[], .asking i c (some t) (.error e) next⟩ : Running n α) =
      .halt (.ended (w.failed i c e) (.error (.client (crew.title i) e))) := by
  simp [tick_eq, advance, isDue, h, Group.drop]

theorem tick_of_waits (h : w.now < t) :
    tick crew ⟨none, none⟩ w (⟨[], .asking i c (some t) result next⟩ : Running n α) =
      .on (w.atTime t) ⟨[], .asking i c (some t) result next⟩ := by
  simp [tick_eq, advance, isDue, Nat.not_le.2 h, Alarm.bell, Alarm.bell.wakeAt, wake]

/-- An activity that waits for a call comes to the time at which the call ends. -/
theorem comes_due (w : World σ n) (t : Nat) (result : Except ClientError ι.Answer)
    (next : ι.Answer → Activity n α) :
    Comes crew ⟨none, none⟩ w ⟨[], .asking i c (some t) result next⟩ (w.atTime t)
      ⟨[], .asking i c (some t) result next⟩ := by
  by_cases h : t ≤ w.now
  · rw [atTime_of_le h]
    exact .start
  · exact .tick .start (tick_of_waits (Nat.lt_of_not_le h))

/-- An activity that asks a client comes to its end, or what it waits for has come. -/
theorem comes_ask (w : World σ n) (hreply : (w.call crew i c).1 = ⟨some ms, result⟩)
    (next : ι.Answer → Activity n α) :
    Comes crew ⟨none, none⟩ w ⟨[], .going (.ask i c next)⟩ ((w.call crew i c).2.atTime (w.now + ms))
      ⟨[], .asking i c (some (w.now + ms)) result next⟩ := by
  have htick : tick crew ⟨none, none⟩ w (⟨[], .going (.ask i c next)⟩ : Running n α) =
      .on (w.call crew i c).2 ⟨[], .asking i c (some (w.now + ms)) result next⟩ := by
    simp [tick_eq, advance, hreply, Reply.due]
  exact (comes_due _ _ _ _).head htick

theorem Comes.of_due (hdue : t ≤ w.now)
    (h : Comes crew ⟨none, none⟩ w ⟨[], .asking i c (some t) result next⟩ w' r') :
    (w' = w ∧ r' = ⟨[], .asking i c (some t) result next⟩) ∨
      ∃ a, result = .ok a ∧
        Comes crew ⟨none, none⟩ (w.answered i c a) ⟨[], .going (next a)⟩ w' r' := by
  rcases h.cases_head with hstart | ⟨w₁, r₁, htick, hcomes⟩
  · exact .inl hstart
  · cases result with
    | ok a =>
      rw [tick_of_answered hdue] at htick
      cases htick
      exact .inr ⟨a, rfl, hcomes⟩
    | error e =>
      rw [tick_of_refused hdue] at htick
      cases htick

/-- What comes of an activity that waits for a call. -/
theorem Comes.of_asking {due : Option Nat} (hlater : ∀ s, due = some s → w.now ≤ s)
    (h : Comes crew ⟨none, none⟩ w ⟨[], .asking i c due result next⟩ w' r') :
    (∃ t, (∀ s, due = some s → t ≤ s) ∧ w' = w.atTime t ∧ r' = ⟨[], .asking i c due result next⟩) ∨
      ∃ s a, due = some s ∧ result = .ok a ∧
        Comes crew ⟨none, none⟩ ((w.atTime s).answered i c a) ⟨[], .going (next a)⟩ w' r' := by
  have hwaits : w = w.atTime w.now := (atTime_of_le (Nat.le_refl _)).symm
  cases due with
  | none =>
    rcases h.cases_head with ⟨rfl, rfl⟩ | ⟨w₁, r₁, htick, -⟩
    · exact .inl ⟨w'.now, hlater, hwaits, rfl⟩
    · cases htick
  | some s =>
    -- Either it is due already, or time passes till it is.
    have hcome : (w' = w ∧ r' = ⟨[], .asking i c (some s) result next⟩) ∨
        Comes crew ⟨none, none⟩ (w.atTime s) ⟨[], .asking i c (some s) result next⟩ w' r' := by
      by_cases hdue : s ≤ w.now
      · rw [atTime_of_le hdue]
        exact .inr h
      · rcases h.cases_head with hstart | ⟨w₁, r₁, htick, hcomes⟩
        · exact .inl hstart
        · rw [tick_of_waits (Nat.lt_of_not_le hdue)] at htick
          cases htick
          exact .inr hcomes
    rcases hcome with ⟨rfl, rfl⟩ | hcomes
    · exact .inl ⟨w'.now, hlater, hwaits, rfl⟩
    · rcases hcomes.of_due (Nat.le_max_right _ _) with ⟨rfl, rfl⟩ | ⟨a, hresult, hcomes⟩
      · exact .inl ⟨s, fun _ hs => Nat.le_of_eq (Option.some.inj hs), rfl, rfl⟩
      · exact .inr ⟨s, a, rfl, hresult, hcomes⟩

/-- What comes of an activity that asks a client: it still does, or it has got an answer. -/
theorem Comes.of_ask (h : Comes crew ⟨none, none⟩ w ⟨[], .going (.ask i c next)⟩ w' r') :
    (w' = w ∧ r' = ⟨[], .going (.ask i c next)⟩) ∨
      (∃ t, (∀ ms, (w.call crew i c).1.delay = some ms → t ≤ w.now + ms) ∧
        w' = (w.call crew i c).2.atTime t ∧
        r' = ⟨[], .asking i c ((w.call crew i c).1.due w.now) (w.call crew i c).1.result next⟩) ∨
      ∃ ms a, (w.call crew i c).1 = ⟨some ms, .ok a⟩ ∧
        Comes crew ⟨none, none⟩ (((w.call crew i c).2.atTime (w.now + ms)).answered i c a)
          ⟨[], .going (next a)⟩ w' r' := by
  have hlater : ∀ s, (w.call crew i c).1.due w.now = some s → (w.call crew i c).2.now ≤ s := by
    intro s hs
    obtain ⟨ms, -, rfl⟩ := Option.map_eq_some_iff.1 hs
    exact Nat.le_add_right _ _
  rcases h.cases_head with hstart | ⟨w₁, r₁, htick, hcomes⟩
  · exact .inl hstart
  · cases htick
    rcases hcomes.of_asking hlater with ⟨t, ht, hw, hr⟩ | ⟨s, a, hs, hresult, hcomes⟩
    · exact .inr (.inl ⟨t, fun ms hms => ht _ (by simp [Reply.due, hms]), hw, hr⟩)
    · obtain ⟨ms, hms, rfl⟩ := Option.map_eq_some_iff.1 hs
      refine .inr (.inr ⟨ms, a, ?_, hcomes⟩)
      rw [← hms, ← hresult]
      rfl

/-- How an activity that waits for a call comes to its end. -/
theorem halts_of_asking (ht : ∀ ms, (w.call crew i c).1.delay = some ms → t ≤ w.now + ms)
    {o : Outcome σ n α} (htick : tick crew ⟨none, none⟩ ((w.call crew i c).2.atTime t)
      ⟨[], .asking i c ((w.call crew i c).1.due w.now) (w.call crew i c).1.result next⟩ = .halt o) :
    o = .never ((w.call crew i c).2.atTime t) ∨
      ∃ ms e, (w.call crew i c).1 = ⟨some ms, .error e⟩ ∧
        o = .ended (((w.call crew i c).2.atTime (w.now + ms)).failed i c e)
          (.error (.client (crew.title i) e)) := by
  rcases hreply : (w.call crew i c).1 with ⟨delay, result⟩
  rw [hreply] at ht htick
  cases delay with
  | none =>
    cases htick
    exact .inl rfl
  | some ms =>
    change tick crew ⟨none, none⟩ ((w.call crew i c).2.atTime t)
      ⟨[], .asking i c (some (w.now + ms)) result next⟩ = .halt o at htick
    have hle : ((w.call crew i c).2.atTime t).now ≤ w.now + ms :=
      Nat.max_le.2 ⟨Nat.le_add_right _ _, ht ms rfl⟩
    by_cases hdue : w.now + ms ≤ ((w.call crew i c).2.atTime t).now
    · have hsame : (w.call crew i c).2.atTime t = (w.call crew i c).2.atTime (w.now + ms) := by
        rw [← Nat.le_antisymm hle hdue, atTime_now_self]
      cases result with
      | ok a =>
        rw [tick_of_answered hdue] at htick
        cases htick
      | error e =>
        rw [tick_of_refused hdue] at htick
        cases htick
        rw [hsame]
        exact .inr ⟨ms, e, rfl, rfl⟩
    · rw [tick_of_waits (Nat.lt_of_not_le hdue)] at htick
      cases htick

end Running

/-! ### Asking for zones -/

/-- Some clients tell their zones, one after the other. -/
inductive ReadsZones (crew : Crew n) (start : Fin n → String) :
    List (Fin n) → World σ n → World σ n → Prop
  | nil {w : World σ n} : ReadsZones crew start [] w w
  | cons {i : Fin n} {rest : List (Fin n)} {w w' : World σ n} {ms : Nat}
      (hreply : (w.call crew i .zone).1 = ⟨some ms, .ok (start i)⟩)
      (hrest : ReadsZones crew start rest
        (((w.call crew i .zone).2.atTime (w.now + ms)).answered i .zone (start i)) w') :
      ReadsZones crew start (i :: rest) w w'

/-- The zones of some clients are being asked for: the first ones have told theirs, and the next one
is about to be asked, or has been asked and has not answered yet. -/
inductive Reading (crew : Crew n) (clients : List (Fin n)) (w : World σ n) :
    World σ n → Running n α → Prop
  | asks {start : Fin n → String} {front back : List (Fin n)} {i : Fin n} {v : World σ n}
      (hclients : clients = front ++ i :: back) (hread : ReadsZones crew start front w v)
      (next : String → Activity n α) : Reading crew clients w v ⟨[], .going (.ask i .zone next)⟩
  | waits {start : Fin n → String} {front back : List (Fin n)} {i : Fin n} {v : World σ n} {t : Nat}
      (hclients : clients = front ++ i :: back) (hread : ReadsZones crew start front w v)
      (ht : ∀ ms, (v.call crew i .zone).1.delay = some ms → t ≤ v.now + ms)
      (next : String → Activity n α) :
      Reading crew clients w ((v.call crew i .zone).2.atTime t)
        ⟨[], .asking i .zone ((v.call crew i .zone).1.due v.now)
          (v.call crew i .zone).1.result next⟩

variable {start start' : Fin n → String} {clients rest : List (Fin n)} {e : Event n} {zone : String}

theorem bind_zones_cons (i : Fin n) (rest : List (Fin n))
    (f : List (Fin n × String) → Activity n α) :
    (zones (i :: rest)).bind f =
      .ask i .zone fun zone => (zones rest).bind fun starts => f ((i, zone) :: starts) := by
  have hassoc : ∀ zone, ((zones rest).bind fun starts => .done ((i, zone) :: starts)).bind f =
      (zones rest).bind fun starts => f ((i, zone) :: starts) :=
    fun zone => Activity.bind_assoc _ _ _
  exact congrArg (Activity.ask i .zone) (funext hassoc)

theorem bind_zones_append (front back : List (Fin n)) (f : List (Fin n × String) → Activity n α) :
    (zones (front ++ back)).bind f =
      (zones front).bind fun starts => (zones back).bind fun more => f (starts ++ more) := by
  induction front generalizing f with
  | nil => rfl
  | cons i front ih =>
    rw [List.cons_append, bind_zones_cons, bind_zones_cons]
    exact congrArg (Activity.ask i .zone) (funext fun zone => ih _)

namespace ReadsZones

theorem congr (h : ReadsZones crew start clients w w') (hsame : ∀ i ∈ clients, start' i = start i) :
    ReadsZones crew start' clients w w' := by
  induction h with
  | nil => exact .nil
  | @cons i rest w w' ms hreply _ ih =>
    have hi := hsame i List.mem_cons_self
    refine .cons (by rw [hreply, hi]) ?_
    rw [hi]
    exact ih fun j hj => hsame j (List.mem_cons_of_mem i hj)

/-- One more client tells its zone, before others. -/
theorem cons_update (hi : i ∉ rest) (hreply : (w.call crew i .zone).1 = ⟨some ms, .ok zone⟩)
    (h : ReadsZones crew start rest
      (((w.call crew i .zone).2.atTime (w.now + ms)).answered i .zone zone) w') :
    ReadsZones crew (Function.update start i zone) (i :: rest) w w' := by
  have hown : Function.update start i zone i = zone := Function.update_self i zone start
  refine .cons (by rw [hreply, hown]) ?_
  rw [hown]
  exact h.congr fun j hj => Function.update_of_ne (ne_of_mem_of_not_mem hj hi) zone start

theorem follows (h : ReadsZones crew start clients w w') : Follows w' w := by
  induction h with
  | nil => exact .refl _
  | @cons i rest w w' ms _ _ ih =>
    exact ih.trans ((follows_answered _ i _ _).trans
      ((follows_atTime _ _).trans (follows_call crew w i _)))

/-- A client that is not asked stays as it is. -/
theorem client_eq (h : ReadsZones crew start clients w w') (hi : i ∉ clients) :
    w'.clients.get i = w.clients.get i := by
  induction h with
  | nil => rfl
  | @cons j rest w w' ms _ _ ih =>
    obtain ⟨hne, hrest⟩ := not_or.1 (mt List.mem_cons.2 hi)
    exact (ih hrest).trans (sameFor_call crew hne w .zone).client

/-- A client that is asked is asked once. -/
theorem exists_reply (h : ReadsZones crew start clients w w') (hnodup : clients.Nodup)
    (hi : i ∈ clients) : ∃ t ms, ClientModel.reply t Call.zone (w.clients.get i) =
      (⟨some ms, .ok (start i)⟩, w'.clients.get i) := by
  induction h with
  | nil => cases hi
  | @cons j rest w w' ms hreply hrest ih =>
    obtain ⟨hj, hnodup⟩ := List.nodup_cons.1 hnodup
    by_cases hij : i = j
    · subst hij
      refine ⟨w.now, ms, Prod.ext hreply ?_⟩
      rw [hrest.client_eq hj]
      exact (call_of_reply crew rfl).2.2.1.symm
    · obtain ⟨t, ms', hlater⟩ := ih hnodup ((List.mem_cons.1 hi).resolve_left hij)
      refine ⟨t, ms', ?_⟩
      rw [← hlater]
      exact congrArg _ (sameFor_call crew hij w .zone).client.symm

/-- While the zones are told, everything that happens is about them, and nothing fails. -/
theorem of_since (h : ReadsZones crew start clients w w') (he : e ∈ w.since w') :
    e.call? = some ⟨.text, .zone⟩ ∧ e.isFailure = false := by
  induction h with
  | nil =>
    rw [since_of_history (List.append_nil _).symm] at he
    cases he
  | @cons i rest w w' ms hreply hrest ih =>
    have hsince : w.since (((w.call crew i .zone).2.atTime (w.now + ms)).answered i .zone
        (start i)) = [.made w.now i .zone (w.focusHeld crew i),
          .answered (max w.now (w.now + ms)) i .zone (start i)] := by
      apply since_of_history
      simp [answered, record, history, atTime, call]
    have hfollows := (follows_answered ((w.call crew i .zone).2.atTime (w.now + ms)) i .zone
      (start i)).trans
      ((follows_atTime _ _).trans (follows_call crew w i .zone))
    rcases (hfollows.mem_since hrest.follows).1 he with he | he
    · rw [hsince] at he
      rcases List.mem_pair.1 he with rfl | rfl
      · exact ⟨rfl, rfl⟩
      · exact ⟨rfl, rfl⟩
    · exact ih he

/-- An activity that asks for zones that are told goes on with them. -/
theorem comes (h : ReadsZones crew start clients w w') (f : List (Fin n × String) → Activity n α) :
    Running.Comes crew ⟨none, none⟩ w ⟨[], .going ((zones clients).bind f)⟩ w'
      ⟨[], .going (f (clients.map fun i => (i, start i)))⟩ := by
  induction h generalizing f with
  | nil => exact .start
  | @cons i rest w w' ms hreply _ ih =>
    rw [bind_zones_cons]
    -- The clock stands at the time of the answer, so the next tick takes it.
    have hask := Running.comes_ask w hreply fun zone => (zones rest).bind fun starts =>
      f ((i, zone) :: starts)
    exact (hask.tick (Running.tick_of_answered (Nat.le_max_right _ _))).trans (ih _)

/-- An activity that asks for zones of which one is refused fails. -/
theorem exists_refused {front : List (Fin n)} {e : ClientError}
    (h : ReadsZones crew start front w v) (hreply : (v.call crew i .zone).1 = ⟨some ms, .error e⟩)
    (back : List (Fin n)) (f : List (Fin n × String) → Activity n α) :
    ∃ r, Running.Comes crew ⟨none, none⟩ w ⟨[], .going ((zones (front ++ i :: back)).bind f)⟩
        ((v.call crew i .zone).2.atTime (v.now + ms)) r ∧
      r.tick crew ⟨none, none⟩ ((v.call crew i .zone).2.atTime (v.now + ms)) =
        .halt (.ended (((v.call crew i .zone).2.atTime (v.now + ms)).failed i .zone e)
          (.error (.client (crew.title i) e))) := by
  rw [bind_zones_append]
  have hfront := h.comes fun starts => (zones (i :: back)).bind fun more => f (starts ++ more)
  rw [bind_zones_cons] at hfront
  exact ⟨_, hfront.trans (Running.comes_ask v hreply _),
    Running.tick_of_refused (Nat.le_max_right _ _)⟩

end ReadsZones

theorem Reading.cons (hi : i ∉ rest) (hreply : (w.call crew i .zone).1 = ⟨some ms, .ok zone⟩)
    (h : Reading crew rest
      (((w.call crew i .zone).2.atTime (w.now + ms)).answered i .zone zone) w' r') :
    Reading crew (i :: rest) w w' r' := by
  cases h with
  | @asks start front back j v hclients hread next =>
    have hfront : i ∉ front := fun hmem => hi (hclients ▸ List.mem_append_left _ hmem)
    exact .asks (by rw [hclients]; rfl) (hread.cons_update hfront hreply) next
  | @waits start front back j v t hclients hread ht next =>
    have hfront : i ∉ front := fun hmem => hi (hclients ▸ List.mem_append_left _ hmem)
    exact .waits (by rw [hclients]; rfl) (hread.cons_update hfront hreply) ht next

/-- What comes of an activity that asks for zones: it still does, or they have been told and what
follows has come to something. -/
theorem zones_comes {f : List (Fin n × String) → Activity n α} (hnodup : clients.Nodup)
    (h : Running.Comes crew ⟨none, none⟩ w ⟨[], .going ((zones clients).bind f)⟩ w' r') :
    Reading crew clients w w' r' ∨ ∃ start w₁, ReadsZones crew start clients w w₁ ∧
      Running.Comes crew ⟨none, none⟩ w₁
        ⟨[], .going (f (clients.map fun i => (i, start i)))⟩ w' r' := by
  induction clients generalizing w f with
  | nil => exact .inr ⟨fun _ => "", w, .nil, h⟩
  | cons i rest ih =>
    obtain ⟨hi, hrest⟩ := List.nodup_cons.1 hnodup
    rw [bind_zones_cons] at h
    have hfront : ReadsZones crew (fun _ => "") [] w w := .nil
    rcases h.of_ask with ⟨rfl, rfl⟩ | ⟨t, ht, rfl, rfl⟩ | ⟨ms, zone, hreply, hcomes⟩
    · exact .inl (.asks rfl hfront _)
    · exact .inl (.waits rfl hfront ht _)
    · rcases ih hrest hcomes with hreading | ⟨start, w₁, hread, hcomes⟩
      · exact .inl (hreading.cons hi hreply)
      · refine .inr ⟨Function.update start i zone, w₁, hread.cons_update hi hreply, ?_⟩
        -- Nobody is asked twice, so the zones of the others stay as they were told.
        have hsame : rest.map (fun j => (j, Function.update start i zone j)) =
            rest.map fun j => (j, start j) := by
          refine List.map_congr_left fun j hj => ?_
          rw [Function.update_of_ne (ne_of_mem_of_not_mem hj hi)]
        rw [List.map_cons, Function.update_self, hsame]
        exact hcomes

end BotScript
