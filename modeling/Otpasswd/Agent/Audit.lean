import Otpasswd.Agent.Policy

/-!
# Otpasswd.Agent.Audit — the failure counters of an entry

PAM sessions count failed attempts in the stored entry while the user's own
client talks to the agent. Between the two the counters only grow, but for the
generic integer setter, which sets both to what the client likes.

Main result: `failures_kept`.
-/

namespace Otpasswd

open CText Prog

/-- A call of a PAM session that counts or clears failures, or a request of the
user's client. -/
inductive Event where
  | failures (me : Pid) (s : State) (zero : Bool)
  | request (req : Request)

/-- The agent while it runs, and the system. -/
abbrev Session := Option Agent × World

def Event.exec (crypto : Crypto) (cfg : Cfg) (me : Pid) : Event → Session → Session
  | .failures pid s zero, (a, w) => (a, ((pppFailures cfg s zero).run (Sys.exec pid) w).2)
  | .request req, (some a, w) =>
    match handled crypto cfg me a w req with
    | (some (0, a'), w') => (some a', w')
    | (_, w') => (none, w')
  | .request _, (none, w) => (none, w)

def runEvents (crypto : Crypto) (cfg : Cfg) (me : Pid) (st : Session) (events : List Event) :
    Session :=
  events.foldl (fun st ev => ev.exec crypto cfg me st) st

/-- The condition holds at every event, in the session it meets. -/
def EventsAlong (crypto : Crypto) (cfg : Cfg) (me : Pid) (cond : Event → Session → Prop) :
    Session → List Event → Prop
  | _, [] => True
  | st, ev :: events =>
    cond ev st ∧ EventsAlong crypto cfg me cond (ev.exec crypto cfg me st) events

/-- The event is about the user. -/
def Event.For (u : CString) : Event → Prop
  | .failures _ s _ => s.username = u
  | .request _ => True

/-- The recent failures are meant to be cleared. -/
def Event.Clears : Event → Prop
  | .failures _ _ zero => zero = true
  | .request req => req.type = .clearRecentFailures

/-- No counter is at its last value when a failure is counted, and the request
neither removes the key nor stores a new one. -/
def Event.Within (cfg : Cfg) (u : CString) : Event → Session → Prop
  | .failures _ _ zero, (_, w) => zero = false →
    ∀ e, dbLookup (w.file (dbLoc cfg u)) u = some e →
      e.failures.toNat + 1 < 2 ^ 32 ∧ e.recentFailures.toNat + 1 < 2 ^ 32
  | .request req, (a, _) => req.type ≠ .keyRemove ∧
    (req.type = .stateStore → ∀ a' s, a = some a' → a'.s = some s → s.newKey = false)

/-- A `SET_INT` does not set a failure counter below what is stored. -/
def Event.KeepsCount (cfg : Cfg) (u : CString) : Event → Session → Prop
  | .failures _ _ _, _ => True
  | .request req, (_, w) => req.type = .setInt →
    ∀ e, dbLookup (w.file (dbLoc cfg u)) u = some e →
      (PppField.ofNum req.int = .failures → e.failures.toNat ≤ req.int2.toNat) ∧
      (PppField.ofNum req.int = .recentFailures → e.recentFailures.toNat ≤ req.int2.toNat)

/-- The counters of the entry have reached `k` and `r`. -/
def Entry.Counted (k r : ℕ) (e : Entry) : Prop :=
  k ≤ e.failures.toNat ∧ r ≤ e.recentFailures.toNat

/-- What the agent of the user's client keeps to. -/
def Session.Serves (u : CString) (st : Session) : Prop :=
  ∀ a, st.1 = some a → a.Ok ∧ a.username = u ∧ a.privileged = false

section

variable {crypto : Crypto} {cfg : Cfg} {me : Pid} {u : CString} {st : Session} {ev : Event}
  {events pre post : List Event} {k r : ℕ}

theorem runEvents_append :
    runEvents crypto cfg me st (pre ++ post) =
      runEvents crypto cfg me (runEvents crypto cfg me st pre) post :=
  List.foldl_append

theorem eventsAlong_append {cond : Event → Session → Prop} :
    EventsAlong crypto cfg me cond st (pre ++ post) ↔ EventsAlong crypto cfg me cond st pre ∧
      EventsAlong crypto cfg me cond (runEvents crypto cfg me st pre) post := by
  induction pre generalizing st with
  | nil => exact ⟨fun h => ⟨trivial, h⟩, fun h => h.2⟩
  | cons ev pre ih =>
    simp only [List.cons_append, EventsAlong, ih, and_assoc]
    rfl

/-- How a request of the client is handled. -/
theorem Handling.client {a a' : Agent} {w w' : World} {req : Request} {retval : ℕ}
    (h : Handling crypto cfg me a w req (some (retval, a')) w') (hok : a.Ok)
    (hp : a.privileged = false) :
    a'.Ok ∧ a'.username = a.username ∧ a'.privileged = false := by
  rcases h with ⟨hw, hr⟩ | ⟨-, hperm, h⟩
  · have hholds := (hr _ _ rfl).2
    exact ⟨hholds.ok_same hok, hholds.username, hholds.privileged.trans hp⟩
  · obtain ⟨huser, hpriv⟩ := h.client hp hperm
    exact ⟨h.ok hok, huser, hpriv⟩

/-- The client stays an unprivileged one of the same user. -/
theorem Event.exec_serves (h : st.Serves u) (ev : Event) :
    (ev.exec crypto cfg me st).Serves u := by
  obtain ⟨a, w⟩ := st
  cases ev with
  | failures pid s zero => exact h
  | request req =>
    rcases a with _ | a
    · exact h
    obtain ⟨hok, huser, hp⟩ := h a rfl
    have hhandling := @handled_handling crypto cfg me a req w hok
    simp only [Event.exec]
    rcases hrun : handled crypto cfg me a w req with ⟨_ | ⟨_ | n, a'⟩, w'⟩
    · exact fun _ h => nomatch h
    · rintro _ ⟨⟩
      rw [hrun] at hhandling
      obtain ⟨hok', huser', hp'⟩ := hhandling.client hok hp
      exact ⟨hok', huser'.trans huser, hp'⟩
    · exact fun _ h => nomatch h

/-- A call that counts a failure, or clears the recent ones. -/
theorem pppFailures_counted {pid : Pid} {s : State} {zero : Bool} {w : World}
    (hs : s.username = u) (hclear : zero = true → r = 0)
    (hwithin : zero = false → ∀ e, dbLookup (w.file (dbLoc cfg u)) u = some e →
      e.failures.toNat + 1 < 2 ^ 32 ∧ e.recentFailures.toNat + 1 < 2 ^ 32)
    (h : Guarded cfg u (Entry.Counted k r) w) :
    Guarded cfg u (Entry.Counted k r) ((pppFailures cfg s zero).run (Sys.exec pid) w).2 := by
  set C : Entry → Entry → Prop := fun e e' => e' = if zero = true
    then { e with recentFailures := 0 }
    else { e with failures := e.failures + 1, recentFailures := e.recentFailures + 1 } with hC
  have hchange (s : State) (uid : Uid) (ok : Prop) : Meets cfg uid true ok Sys.Calm
      (fun s' => s'.username = s.username ∧ C s.entry s'.entry)
      (if zero = true then (pure (s.setRecentFailures 0) : SysM State) else
        pure ((s.setFailures (s.failures + 1)).setRecentFailures (s.recentFailures + 1))) := by
    cases zero with
    | true => exact ⟨rfl, rfl⟩
    | false => exact ⟨rfl, rfl⟩
  have hspec := pppUpdate_spec pid cfg s.named s.username _ C hchange w
  rw [hs] at hspec
  rw [pppFailures, State.name, hs]
  rcases hspec with ⟨hw, -⟩ | ⟨e, e', rfl, hreplaced, -⟩
  · exact h.keeps hw
  have hlook := hreplaced.before
  obtain ⟨hf, hrf⟩ := h.lookup e hlook
  have hv := dbLookup_valid hlook
  refine hreplaced.guarded ?_ ?_
  · split_ifs
    · exact ⟨hv.1, hv.2, hv.3, hv.4, hv.5⟩
    · exact ⟨hv.1, hv.2, hv.3, hv.4, hv.5⟩
  · cases hzero : zero with
    | true => exact ⟨hf, (hclear hzero).le.trans (Nat.zero_le _)⟩
    | false =>
      obtain ⟨hlt, hltr⟩ := hwithin hzero e hlook
      -- no counter wraps
      have hadd (x : Word32) (h : x.toNat + 1 < 2 ^ 32) : (x + 1).toNat = x.toNat + 1 := by
        have hone : (1 : Word32).toNat = 1 := rfl
        rw [BitVec.toNat_add, hone, Nat.mod_eq_of_lt h]
      constructor
      · exact hf.trans ((hadd _ hlt).symm ▸ Nat.le_succ _)
      · exact hrf.trans ((hadd _ hltr).symm ▸ Nat.le_succ _)

/-- A request that is not a way around the counters. -/
theorem Handling.counted {a : Agent} {req : Request} {w w' : World} {x : Option (ℕ × Agent)}
    (h : Handling crypto cfg me a w req x w') (huser : a.username = u) (hu : ReadableName u)
    (hclear : req.type = .clearRecentFailures → r = 0)
    (hstore : req.type = .stateStore → ∀ s, a.s = some s → s.newKey = false)
    (hkeeps : req.type = .setInt → ∀ e, dbLookup (w.file (dbLoc cfg u)) u = some e →
      (PppField.ofNum req.int = .failures → e.failures.toNat ≤ req.int2.toNat) ∧
      (PppField.ofNum req.int = .recentFailures → e.recentFailures.toNat ≤ req.int2.toNat))
    (hG : Guarded cfg u (Entry.Counted k r) w) : Guarded cfg u (Entry.Counted k r) w' := by
  obtain rfl := huser
  refine h.db.preserves hu hG (fun htype s hs hkey => ?_) fun e e' hlook he hchange => ?_
  · simp [hstore htype s hs] at hkey
  cases hchange with
  | counted => exact he
  | cleared htype => exact ⟨he.1, (hclear htype).le.trans (Nat.zero_le _)⟩
  | set s s' lock hsets =>
    have hf : (s.loaded lock e).failures = e.failures := rfl
    have hrf : (s.loaded lock e).recentFailures = e.recentFailures := rfl
    have hsets := hsets.changes
    generalize s.loaded lock e = t at hsets hf hrf
    have hcount : k ≤ t.failures.toNat ∧ r ≤ t.recentFailures.toNat := by
      rw [hf, hrf]
      exact he
    cases hsets with
    | failures htype hfield => exact ⟨he.1.trans ((hkeeps htype e hlook).1 hfield), hcount.2⟩
    | recentFailures htype hfield => exact ⟨hcount.1, he.2.trans ((hkeeps htype e hlook).2 hfield)⟩
    | _ => exact hcount

/-- What the counters have reached before an event they have reached after it. -/
theorem Event.exec_counted (hu : ReadableName u) (hserves : st.Serves u) (hfor : ev.For u)
    (hwithin : ev.Within cfg u st) (hkeeps : ev.KeepsCount cfg u st) (hclear : ev.Clears → r = 0)
    (h : Guarded cfg u (Entry.Counted k r) st.2) :
    Guarded cfg u (Entry.Counted k r) (ev.exec crypto cfg me st).2 := by
  obtain ⟨a, w⟩ := st
  cases ev with
  | failures pid s zero => exact pppFailures_counted hfor hclear hwithin h
  | request req =>
    rcases a with _ | a
    · exact h
    obtain ⟨hok, huser, hp⟩ := hserves a rfl
    have hhandling := @handled_handling crypto cfg me a req w hok
    have hcounted := hhandling.counted huser hu hclear
      (fun htype s hs => hwithin.2 htype a s rfl hs) hkeeps h
    simp only [Event.exec]
    rcases hrun : handled crypto cfg me a w req with ⟨_ | ⟨_ | n, a'⟩, w'⟩ <;>
      (rw [hrun] at hcounted; exact hcounted)

theorem runEvents_serves (h : st.Serves u) (events : List Event) :
    (runEvents crypto cfg me st events).Serves u := by
  induction events generalizing st with
  | nil => exact h
  | cons ev events ih => exact ih (Event.exec_serves h ev)

theorem runEvents_counted (hu : ReadableName u) (hserves : st.Serves u)
    (hfor : ∀ ev ∈ events, ev.For u)
    (hcond : EventsAlong crypto cfg me
      (fun ev st => ev.Within cfg u st ∧ ev.KeepsCount cfg u st) st events)
    (hclear : ∀ ev ∈ events, ev.Clears → r = 0) (h : Guarded cfg u (Entry.Counted k r) st.2) :
    Guarded cfg u (Entry.Counted k r) (runEvents crypto cfg me st events).2 := by
  induction events generalizing st with
  | nil => exact h
  | cons ev events ih =>
    obtain ⟨⟨hwithin, hkeeps⟩, hcond⟩ := hcond
    refine ih (Event.exec_serves hserves ev) (fun ev hev => hfor ev (List.mem_cons_of_mem _ hev))
      hcond (fun ev hev => hclear ev (List.mem_cons_of_mem _ hev)) ?_
    exact Event.exec_counted hu hserves (hfor ev List.mem_cons_self) hwithin hkeeps
      (hclear ev List.mem_cons_self) h

end

/-- In a run of PAM sessions and the user's client in which no `SET_INT` sets a
failure counter below what is stored, the number of failures never falls, and
the number of recent ones only where they are cleared. -/
theorem failures_kept (crypto : Crypto) (cfg : Cfg) (me : Pid) (w : World) (u : CString)
    (pre post : List Event) (e e' : Entry) (hfor : ∀ ev ∈ pre ++ post, ev.For u)
    (hsteps : EventsAlong crypto cfg me (fun ev st => ev.Within cfg u st ∧ ev.KeepsCount cfg u st)
      (some (Agent.start u false), w) (pre ++ post))
    (he : dbLookup ((runEvents crypto cfg me (some (Agent.start u false), w) pre).2.file
      (dbLoc cfg u)) u = some e)
    (he' : dbLookup ((runEvents crypto cfg me (some (Agent.start u false), w) (pre ++ post)).2.file
      (dbLoc cfg u)) u = some e') :
    e.failures.toNat ≤ e'.failures.toNat ∧
      ((∀ ev ∈ post, ¬ ev.Clears) → e.recentFailures.toNat ≤ e'.recentFailures.toNat) := by
  have hstart : Session.Serves u (some (Agent.start u false), w) := by
    rintro _ ⟨⟩
    exact ⟨Agent.start_ok u false, rfl, rfl⟩
  have hserves := @runEvents_serves crypto cfg me u _ hstart pre
  have hcond := (eventsAlong_append.mp hsteps).2
  have hreached {r : ℕ} (hr : r ≤ e.recentFailures.toNat)
      (hclear : ∀ ev ∈ post, ev.Clears → r = 0) :
      Entry.Counted e.failures.toNat r e' := by
    have hguarded : Guarded cfg u (Entry.Counted e.failures.toNat r)
        (runEvents crypto cfg me (some (Agent.start u false), w) pre).2 := by
      refine ⟨fun x hx => ?_, .of_lookup he⟩
      obtain rfl := Option.some.inj (he.symm.trans hx)
      exact ⟨le_rfl, hr⟩
    have hend := runEvents_counted (dbLookup_readable he) hserves
      (fun ev hev => hfor ev (List.mem_append_right _ hev)) hcond hclear hguarded
    rw [runEvents_append] at he'
    exact hend.lookup e' he'
  refine ⟨(hreached (Nat.zero_le _) fun _ _ _ => rfl).1, fun hnone => ?_⟩
  exact (hreached le_rfl fun ev hev hclears => absurd hclears (hnone ev hev)).2

/-- A failure is counted, then the client sets the counter to seven. -/
theorem failures_kept_seven : ∃ e e', dbLookup ((runEvents plainCrypto configRoot 0
      (some (Agent.start alice false), aliceWorld) [.failures 0 aliceState false]).2.file
        (dbLoc configRoot alice)) alice = some e ∧
    dbLookup ((runEvents plainCrypto configRoot 0 (some (Agent.start alice false), aliceWorld)
      ([.failures 0 aliceState false] ++ [.request (.setInt 1 7)])).2.file
        (dbLoc configRoot alice)) alice = some e' ∧ e.failures.toNat ≤ e'.failures.toNat := by
  have hbefore : (dbLookup (aliceWorld.file (dbLoc configRoot alice)) alice).map (fun e =>
      decide (e.failures.toNat + 1 < 2 ^ 32 ∧ e.recentFailures.toNat + 1 < 2 ^ 32)) = some true := by
    decide +kernel
  have hfailed : (dbLookup ((runEvents plainCrypto configRoot 0
      (some (Agent.start alice false), aliceWorld) [.failures 0 aliceState false]).2.file
        (dbLoc configRoot alice)) alice).map (fun e => decide (e.failures.toNat ≤ 7)) =
          some true := by decide +kernel
  have hset : (dbLookup ((runEvents plainCrypto configRoot 0
      (some (Agent.start alice false), aliceWorld)
        ([.failures 0 aliceState false] ++ [.request (.setInt 1 7)])).2.file
          (dbLoc configRoot alice)) alice).isSome = true := by decide +kernel
  obtain ⟨e, he, hsmall⟩ := Option.map_eq_some_iff.mp hfailed
  obtain ⟨e', he'⟩ := Option.isSome_iff_exists.mp hset
  have hfield : PppField.ofNum (Request.setInt 1 7).int ≠ .recentFailures := by decide
  have hseven : (Request.setInt 1 7).int2.toNat = 7 := rfl
  refine ⟨e, e', he, he', (failures_kept plainCrypto configRoot 0 aliceWorld alice
    [.failures 0 aliceState false] [.request (.setInt 1 7)] e e' ?_ ?_ he he').1⟩
  · simp only [List.cons_append, List.nil_append, List.mem_cons, List.not_mem_nil, or_false,
      forall_eq_or_imp, forall_eq]
    exact ⟨rfl, trivial⟩
  refine eventsAlong_append.mpr ⟨⟨⟨fun _ x hx => ?_, trivial⟩, trivial⟩, ?_⟩
  · obtain ⟨e0, he0, hlt⟩ := Option.map_eq_some_iff.mp hbefore
    obtain rfl := Option.some.inj (he0.symm.trans hx)
    exact of_decide_eq_true hlt
  generalize runEvents plainCrypto configRoot 0 (some (Agent.start alice false), aliceWorld)
    [.failures 0 aliceState false] = st at he ⊢
  obtain ⟨a, w⟩ := st
  refine ⟨⟨⟨nofun, fun h => nomatch h⟩, fun _ x hx => ⟨fun _ => ?_, fun h => absurd h hfield⟩⟩,
    trivial⟩
  obtain rfl := Option.some.inj (he.symm.trans hx)
  rw [hseven]
  exact of_decide_eq_true hsmall

/-- `SET_INT` takes a failure back. -/
theorem setInt_rewinds_failures :
    ¬ ∀ (crypto : Crypto) (cfg : Cfg) (me : Pid) (w : World) (u : CString) (pre post : List Event)
      (e e' : Entry), (∀ ev ∈ pre ++ post, ev.For u) →
      EventsAlong crypto cfg me (Event.Within cfg u) (some (Agent.start u false), w) (pre ++ post) →
      dbLookup ((runEvents crypto cfg me (some (Agent.start u false), w) pre).2.file
        (dbLoc cfg u)) u = some e →
      dbLookup ((runEvents crypto cfg me (some (Agent.start u false), w) (pre ++ post)).2.file
        (dbLoc cfg u)) u = some e' →
      e.failures.toNat ≤ e'.failures.toNat ∧
        ((∀ ev ∈ post, ¬ ev.Clears) → e.recentFailures.toNat ≤ e'.recentFailures.toNat) := by
  intro h
  have hbefore : (dbLookup (aliceWorld.file (dbLoc configRoot alice)) alice).map (fun e =>
      decide (e.failures.toNat + 1 < 2 ^ 32 ∧ e.recentFailures.toNat + 1 < 2 ^ 32)) = some true := by
    decide +kernel
  have hfailed : (dbLookup ((runEvents plainCrypto configRoot 0
      (some (Agent.start alice false), aliceWorld) [.failures 0 aliceState false]).2.file
        (dbLoc configRoot alice)) alice).map (fun e => e.failures) = some 1 := by decide +kernel
  have hset : (dbLookup ((runEvents plainCrypto configRoot 0
      (some (Agent.start alice false), aliceWorld)
        ([.failures 0 aliceState false] ++ [.request (.setInt 1 0)])).2.file
          (dbLoc configRoot alice)) alice).map (fun e => e.failures) = some 0 := by decide +kernel
  obtain ⟨e, he, hone⟩ := Option.map_eq_some_iff.mp hfailed
  obtain ⟨e', he', hzero⟩ := Option.map_eq_some_iff.mp hset
  have hle := (h plainCrypto configRoot 0 aliceWorld alice [.failures 0 aliceState false]
    [.request (.setInt 1 0)] e e' ?_ ?_ he he').1
  · rw [hone, hzero] at hle
    exact absurd hle (by decide)
  · simp only [List.cons_append, List.nil_append, List.mem_cons, List.not_mem_nil, or_false,
      forall_eq_or_imp, forall_eq]
    exact ⟨rfl, trivial⟩
  · refine ⟨fun _ x hx => ?_, ⟨nofun, fun h => nomatch h⟩, trivial⟩
    obtain ⟨e0, he0, hsmall⟩ := Option.map_eq_some_iff.mp hbefore
    obtain rfl := Option.some.inj (he0.symm.trans hx)
    exact of_decide_eq_true hsmall

end Otpasswd
