import Otpasswd.Agent.Stored

/-!
# Otpasswd.Agent.Policy — policies over whole runs

What the policies on disabled users and on keys achieve against a client that
may send any sequence of requests. Both are enforced request by request, and
both have a way around: `SET_INT` is not checked, and a load that fails counts
as there being nothing to protect.

Main results: `disabled_stays` and `key_stays`.
-/

namespace Otpasswd

open CText Prog

/-! ## Disabled users -/

def Entry.Disabled (e : Entry) : Prop := e.flags &&& flagDisabled ≠ 0

/-- The request has no way around the policy on disabled users: a `SET_INT` of
the flags that passes its checks keeps the flag, and the policy of a
`STATE_NEW` does not miss the stored state. -/
def KeepsDisabled (cfg : Cfg) (me : Pid) (a : Agent) (w : World) (req : Request) : Prop :=
  match req.type with
  | .setInt => PppField.ofNum req.int = .flags → req.int2.toNat ≤ 7 →
      pppVerifyFlags cfg req.int2 = 0 → req.int2 &&& flagDisabled ≠ 0
  | .stateNew => a.s = none → ∀ r w', (agentStateInit cfg a true false).run (Sys.exec me) w =
      (some r, w') → r.1 = 0 ∨ cfg.keyGeneration = configDisallow
  | _ => True

/-- The invariant of a run of the unprivileged client of `u`: the stored entry
and the state held are disabled. -/
structure DisabledInv (cfg : Cfg) (u : CString) (a : Agent) (w : World) : Prop where
  ok : a.Ok
  user : a.username = u
  unprivileged : a.privileged = false
  name : ReadableName u
  db : Guarded cfg u Entry.Disabled w
  held : ∀ s, a.s = some s → s.entry.Valid ∧ s.entry.Disabled

section

variable {crypto : Crypto} {cfg : Cfg} {me : Pid} {a a' : Agent} {s s' : State} {req : Request}
  {w w' : World} {r : Option (ℕ × Agent)} {e e' : Entry} {u : CString} {retval : ℕ}

theorem disabled_iff (flags : Word32) : flags &&& flagDisabled ≠ 0 ↔ flags.getLsbD 1 = true := by
  have hbit : flagDisabled = BitVec.twoPow 32 1 := by decide
  rw [hbit, BitVec.and_twoPow]
  cases flags.getLsbD 1 with
  | false => simp
  | true => simpa using (by decide : BitVec.twoPow 32 1 ≠ 0#32)

/-- A setter that is let through and has no way around the policy. -/
theorem Request.Changes.disabled (h : req.Changes cfg s s')
    (hkeeps : KeepsDisabled cfg me a w req)
    (hclear : req.type = .flagClear → flagDisabled &&& req.int = 0) (hs : s.entry.Disabled) :
    s'.entry.Disabled := by
  unfold KeepsDisabled at hkeeps
  have hbit : s.flags.getLsbD 1 = true := (disabled_iff _).mp hs
  cases h with
  | flagAdd htype _ =>
    refine (disabled_iff _).mpr ?_
    have hor : (s.flags ||| req.int).getLsbD 1 = true := by rw [BitVec.getLsbD_or, hbit, Bool.true_or]
    exact hor
  | flagClear htype _ =>
    have hclear := hclear htype
    have hint : req.int.getLsbD 1 = false := by
      rw [BitVec.and_comm] at hclear
      by_contra h
      exact (disabled_iff req.int).mpr (by simpa using h) hclear
    refine (disabled_iff _).mpr ?_
    have hand : (s.flags &&& ~~~req.int).getLsbD 1 = true := by
      rw [BitVec.getLsbD_and, BitVec.getLsbD_not, hbit, hint]
      decide
    exact hand
  | flags htype hfield hle hok =>
    simp only [htype] at hkeeps
    exact hkeeps hfield hle hok
  | _ => exact hs

/-- The policy does not let a client clear the flag. -/
theorem flagClear_permitted (hdis : cfg.disabling = configDisallow) (hp : a.privileged = false)
    (hperm : Permitted cfg me a w req) (htype : req.type = .flagClear) :
    flagDisabled &&& req.int = 0 := by
  by_contra hne
  rw [Permitted, if_neg (by simp [htype]), requestVerifyPolicy] at hperm
  simp only [htype] at hperm
  obtain ⟨hcode, -⟩ := ret_pair hperm
  unfold verifyFlagChange at hcode
  rw [hp, hdis] at hcode
  simp only [hne, Bool.false_eq_true, if_false, ne_eq, not_false_eq_true, and_self, if_true] at hcode
  split_ifs at hcode

/-- A `STATE_NEW` is not let through as long as its policy finds the entry. -/
theorem stateNew_not_permitted (hinv : DisabledInv cfg u a w)
    (hdis : cfg.disabling = configDisallow) (hkeeps : KeepsDisabled cfg me a w req)
    (htype : req.type = .stateNew) : ¬ Permitted cfg me a w req := by
  intro hperm
  rw [Permitted, if_pos htype] at hperm
  obtain ⟨hs, hperm⟩ := hperm
  obtain ⟨r, w1, hrun, hcode⟩ := hperm hinv.unprivileged
  simp only [KeepsDisabled, htype] at hkeeps
  have hspec := @agentStateInit_spec cfg me a w hs (hinv.ok.newState_none hs) false
  rw [wp, hrun] at hspec
  have hend : InitEnd cfg a w false r.1 r.2 := hspec.2 r.1 r.2 rfl
  obtain ⟨retval, a'⟩ := r
  cases hend with
  | failed _ hret =>
    have hgen := (hkeeps hs _ w1 hrun).resolve_left hret
    rw [newCode, if_pos hret, if_pos hgen] at hcode
    simp at hcode
  | held s lock e hfresh hlook hlock hfree =>
    rw [hinv.user] at hlook
    have hdisabled : e.flags &&& flagDisabled ≠ 0 := hinv.db.lookup e hlook
    have hany : ((a.setS (some (s.loaded lock e))).s.any fun s => pppFlagCheck s flagDisabled) =
        true := decide_eq_true hdisabled
    rw [newCode, if_neg (by simp), if_pos ⟨hany, hdis⟩] at hcode
    simp at hcode

/-- The entry of a state that a request on the counter leaves. -/
theorem Request.leaves_entry (s : State) : (req.leaves s).entry =
    if req.type = .skip then { s.entry with counter := req.num } else s.entry := by
  unfold Request.leaves
  split_ifs
  · rfl
  · rfl

/-- What has become of a state after a request on the counter that failed. -/
theorem Tried.entry {file : Option (List Char)} (h : Tried file s req.leaves s')
    (hintact : Intact file s.username) :
    (s'.entry = s.entry ∧ s'.newKey = s.newKey) ∨ s'.newKey = s.newKey ∧
      ∃ e n, dbLookup file s.username = some e ∧ s'.entry = { e with counter := n } := by
  cases h with
  | kept lock => exact .inl ⟨rfl, rfl⟩
  | malformed _ h => exact absurd hintact h
  | loaded lock e hlook =>
    refine .inr ⟨rfl, e, e.counter, hlook, ?_⟩
    rw [loaded_entry]
  | moved lock e hlook hnew =>
    have hkey : (req.leaves (s.loaded lock e)).newKey = s.newKey := by
      unfold Request.leaves
      split_ifs
      · rfl
      · rfl
    refine .inr ⟨hkey, e, (req.leaves (s.loaded lock e)).entry.counter, hlook, ?_⟩
    rw [Request.leaves_entry, loaded_entry]
    split_ifs
    · rfl
    · rfl

/-- Flags stay in range when the salt is set or cleared. -/
theorem saltFlags_le {flags : Word32} (h : flags.toNat ≤ 7) :
    (flags &&& ~~~flagSalted).toNat ≤ 7 ∧ (flags ||| flagSalted).toNat ≤ 7 := by
  constructor
  · rw [BitVec.toNat_and]
    exact Nat.and_le_left.trans h
  · rw [BitVec.toNat_or]
    have hlt : flags.toNat < 2 ^ 3 := by omega
    have hsalt : flagSalted.toNat < 2 ^ 3 := by decide
    have := Nat.or_lt_two_pow hlt hsalt
    omega

theorem generated_valid (hv : s.entry.Valid) (pool : List Byte) :
    (s.generated crypto pool).entry.Valid := by
  obtain ⟨h2, h16, h7, hlabel, hcontact⟩ := hv
  have hflags := saltFlags_le h7
  unfold State.generated
  split_ifs
  · exact ⟨h2, h16, hflags.1, hlabel, hcontact⟩
  · exact ⟨h2, h16, hflags.2, hlabel, hcontact⟩

/-- A generated key keeps the flags, the salt apart. -/
theorem generated_disabled (hs : s.entry.Disabled) (pool : List Byte) :
    (s.generated crypto pool).entry.Disabled := by
  have hbit : s.flags.getLsbD 1 = true := (disabled_iff _).mp hs
  refine (disabled_iff _).mpr ?_
  have hand : (s.flags &&& ~~~flagSalted).getLsbD 1 = true := by
    rw [BitVec.getLsbD_and, hbit]
    decide
  have hor : (s.flags ||| flagSalted).getLsbD 1 = true := by
    rw [BitVec.getLsbD_or, hbit, Bool.true_or]
  unfold State.generated
  split_ifs
  · exact hand
  · exact hor

/-- A client who is not privileged stays the client he is. -/
theorem Effect.client (hp : a.privileged = false) (hperm : Permitted cfg me a w req)
    (h : Effect crypto cfg me a w req (some (retval, a')) w') :
    a'.username = a.username ∧ a'.privileged = false := by
  have hholds {s : Option State} {new : Bool} (h : a.Holds a' s new) :
      a'.username = a.username ∧ a'.privileged = false := ⟨h.username, h.privileged.trans hp⟩
  cases h with
  | refused hw hr => exact hholds (hr _ _ rfl).2
  | read hro hw hr =>
    obtain ⟨s', h, -⟩ := hr _ _ rfl
    exact hholds h
  | dropped hwhy hw hr => exact hholds (hr _ _ rfl).2
  | switched htype hw hr =>
    rw [Permitted, if_neg (by simp [htype]), requestVerifyPolicy] at hperm
    simp only [htype] at hperm
    obtain ⟨hcode, -⟩ := ret_pair hperm
    rw [unlessPrivileged, if_pos ⟨hp, trivial⟩] at hcode
    simp at hcode
  | created htype hs hw hr =>
    obtain ⟨junk, named, h⟩ := hr _ _ rfl
    exact hholds h
  | loaded htype hs s e hfresh hlook hw hr => exact hholds (hr _ _ rfl)
  | put htype s hs hkey h hr => exact hholds (hr _ _ rfl)
  | generated htype s pool hs hcheck hw hr => exact hholds (hr _ _ rfl)
  | removed htype hs s lock e hfresh hlook h hr => exact hholds (hr _ _ rfl)
  | changed s s' retval hnew hs hset hb hw hr => exact hholds (hr _ _ rfl).2
  | unset s s' lock e retval hnew hfresh hlook hset hb hw hr =>
    obtain ⟨-, lock', -, h⟩ := hr _ _ rfl
    exact hholds h
  | set s s' lock e hnew hfresh hset hb h hr =>
    obtain ⟨lock', -, h⟩ := hr _ _ rfl
    exact hholds h
  | tried htype s hs hw hr =>
    obtain ⟨-, s', -, -, h⟩ := hr _ _ rfl
    exact hholds h
  | counted htype s hs e hnew hallowed hskip h hr =>
    obtain ⟨lock, -, h⟩ := hr _ _ rfl
    exact hholds h
  | cleared htype e h hr => exact hholds (hr _ _ rfl)

/-- What the agent holds after a request is disabled. -/
theorem Effect.held_disabled (hinv : DisabledInv cfg u a w)
    (hdis : cfg.disabling = configDisallow) (hkeeps : KeepsDisabled cfg me a w req)
    (hperm : Permitted cfg me a w req)
    (h : Effect crypto cfg me a w req (some (retval, a')) w') :
    ∀ s, a'.s = some s → s.entry.Valid ∧ s.entry.Disabled := by
  -- what is held afterwards is a new state, nothing, or what was held before
  have hsome {s1 : State} {new : Bool} (h : a.Holds a' (some s1) new)
      (hv : s1.entry.Valid) (hd : s1.entry.Disabled) :
      ∀ s, a'.s = some s → s.entry.Valid ∧ s.entry.Disabled := by
    intro s hs
    obtain rfl := Option.some.inj (h.s.symm.trans hs)
    exact ⟨hv, hd⟩
  have hnone (h : a'.s = none) : ∀ s, a'.s = some s → s.entry.Valid ∧ s.entry.Disabled :=
    fun s hs => nomatch h.symm.trans hs
  have hsame (h : a.Holds a' a.s a.newState) :
      ∀ s, a'.s = some s → s.entry.Valid ∧ s.entry.Disabled :=
    fun s hs => hinv.held s (h.s.symm.trans hs)
  -- each new state comes from the stored entry or from the state held, both disabled
  have hfound {e : Entry} (h : dbLookup (w.file (dbLoc cfg a.username)) a.username = some e) :
      e.Valid ∧ e.Disabled := by
    refine ⟨dbLookup_valid h, hinv.db.lookup e ?_⟩
    rwa [hinv.user] at h
  have hloaded {e : Entry} (s : State) (lock : ℤ) (h : e.Valid ∧ e.Disabled) :
      (s.loaded lock e).entry.Valid ∧ (s.loaded lock e).entry.Disabled := by
    rwa [loaded_entry]
  have hcounter {e : Entry} (n : Num) (h : e.Valid ∧ e.Disabled) :
      Entry.Valid { e with counter := n } ∧ Entry.Disabled { e with counter := n } :=
    ⟨⟨h.1.1, h.1.2, h.1.3, h.1.4, h.1.5⟩, h.2⟩
  have hsets {s s' : State} {retval : ℕ} (h : req.Sets cfg a.privileged s retval s')
      (hs : s.entry.Valid ∧ s.entry.Disabled) : s'.entry.Valid ∧ s'.entry.Disabled := by
    refine ⟨h.valid hs.1, ?_⟩
    rcases h.cases with ⟨-, rfl⟩ | ⟨-, h⟩
    · exact hs.2
    · exact h.disabled hkeeps (flagClear_permitted hdis hinv.unprivileged hperm) hs.2
  cases h with
  | refused hw hr => exact hsame (hr _ _ rfl).2
  | dropped hwhy hw hr => exact hnone (hr _ _ rfl).2.s
  | switched htype hw hr => exact hnone (hr _ _ rfl).1
  | put htype s hs hkey h hr => exact hnone (hr _ _ rfl).s
  | removed htype hs s lock e hfresh hlook h hr => exact hnone (hr _ _ rfl).s
  | cleared htype e h hr => exact hsame (hr _ _ rfl)
  | created htype hs hw hr => exact absurd hperm (stateNew_not_permitted hinv hdis hkeeps htype)
  | read hro hw hr =>
    obtain ⟨s', hholds, hs' | ⟨s, s1, hs, rfl, hend⟩⟩ := hr _ _ rfl
    · subst hs'
      exact hsame hholds
    · have hheld := hinv.held s hs
      unfold ReadEnds at hend
      split_ifs at hend
      · -- a prompt for the first passcode sets the counter back, not the flags
        obtain ⟨prompt, rfl⟩ := hend
        have hentry : (s.rewound.setPrompt prompt).entry = { s.entry with counter := numI 0 } :=
          calculate_entry (s.setCounter (numI 0))
        have hzero := hcounter (numI 0) hheld
        rw [← hentry] at hzero
        exact hsome hholds hzero.1 hzero.2
      · obtain ⟨prompt, rfl⟩ := hend
        exact hsome hholds hheld.1 hheld.2
  | loaded htype hs s e hfresh hlook hw hr =>
    have he := hloaded s (-1) (hfound hlook)
    exact hsome (hr _ _ rfl) he.1 he.2
  | generated htype s pool hs hcheck hw hr =>
    have hheld := hinv.held s hs
    exact hsome (hr _ _ rfl) (generated_valid hheld.1 pool) (generated_disabled hheld.2 pool)
  | changed s s' retval hnew hs hset hb hw hr =>
    have hs' := hsets hset (hinv.held s hs)
    exact hsome (hr _ _ rfl).2 hs'.1 hs'.2
  | unset s s' lock e retval hnew hfresh hlook hset hb hw hr =>
    obtain ⟨-, lock', -, hholds⟩ := hr _ _ rfl
    have hs' := hsets hset (hloaded s lock (hfound hlook))
    exact hsome hholds hs'.1 hs'.2
  | set s s' lock e hnew hfresh hset hb h hr =>
    obtain ⟨lock', -, hholds⟩ := hr _ _ rfl
    have hs' := hsets hset (hloaded s lock (hfound h.before))
    exact hsome hholds hs'.1 hs'.2
  | tried htype s hs hw hr =>
    obtain ⟨-, s', -, htried, hholds⟩ := hr _ _ rfl
    have hname := (hinv.ok.held s hs).username
    have hintact : Intact (w.file (dbLoc cfg a.username)) s.username := by
      rw [hname, hinv.user]
      exact hinv.db.intact
    -- a counter operation that failed may have loaded the entry and moved its counter
    rcases htried.entry hintact with ⟨h, -⟩ | ⟨-, e, n, hlook, h⟩
    · have hheld := hinv.held s hs
      rw [← h] at hheld
      exact hsome hholds hheld.1 hheld.2
    · rw [hname] at hlook
      have hmoved := hcounter n (hfound hlook)
      rw [← h] at hmoved
      exact hsome hholds hmoved.1 hmoved.2
  | counted htype s hs e hnew hallowed hskip h hr =>
    obtain ⟨lock, -, hholds⟩ := hr _ _ rfl
    have hfound := hfound h.before
    have hentry := @Request.leaves_entry req (s.loaded lock e)
    rw [loaded_entry] at hentry
    have hleaves : (req.leaves (s.loaded lock e)).entry.Valid ∧
        (req.leaves (s.loaded lock e)).entry.Disabled := by
      rw [hentry]
      split_ifs
      · exact hcounter req.num hfound
      · exact hfound
    exact hsome hholds hleaves.1 hleaves.2

/-- The stored entry stays disabled. -/
theorem DisabledInv.db_step (hinv : DisabledInv cfg u a w) (hdis : cfg.disabling = configDisallow)
    (hkeeps : KeepsDisabled cfg me a w req) (h : Handling crypto cfg me a w req r w') :
    Guarded cfg u Entry.Disabled w' := by
  rcases h with ⟨hw, -⟩ | ⟨-, hperm, h⟩
  · exact hinv.db.keeps hw
  have hu := hinv.user
  have hname := hinv.name
  have hdb := hinv.db
  rw [← hu] at hname hdb ⊢
  refine h.db.preserves hname hdb (fun _ s hs _ => ?_) fun e e' _ he hchange => ?_
  · exact ⟨(hinv.ok.held s hs).username, hinv.held s hs⟩
  · cases hchange with
    | set s s' lock hsets =>
      have hs : (s.loaded lock e).entry.Disabled := by
        rw [loaded_entry]
        exact he
      exact hsets.changes.disabled hkeeps (flagClear_permitted hdis hinv.unprivileged hperm) hs
    | counted => exact he
    | cleared => exact he

end

/-! ### Runs -/

/-- While `disabling` is off, no run of the unprivileged client of a disabled
user leaves an entry of his that is not disabled, as long as none of its
requests has a way around the policy. -/
theorem disabled_stays (crypto : Crypto) (cfg : Cfg) (me : Pid) (w : World) (u : CString)
    (reqs : List Request) (e x : Entry) (hdis : cfg.disabling = configDisallow)
    (hlook : dbLookup (w.file (dbLoc cfg u)) u = some e) (he : e.flags &&& flagDisabled ≠ 0)
    (hsteps : Along crypto cfg me (KeepsDisabled cfg me) (Agent.start u false) w reqs)
    (hx : dbLookup (((mainLoop crypto cfg (Agent.start u false) reqs).run
      (Sys.exec me) w).2.file (dbLoc cfg u)) u = some x) : x.flags &&& flagDisabled ≠ 0 := by
  have hguarded : Guarded cfg u Entry.Disabled w := by
    refine ⟨fun e' h => ?_, .of_lookup hlook⟩
    obtain rfl := Option.some.inj (hlook.symm.trans h)
    exact he
  have hinit : DisabledInv cfg u (Agent.start u false) w :=
    ⟨Agent.start_ok u false, rfl, rfl, dbLookup_readable hlook, hguarded, fun _ h => nomatch h⟩
  have hdb := mainLoop_db (J := DisabledInv cfg u) (D := Guarded cfg u Entry.Disabled)
    (fun _ _ h => h.ok) (fun _ _ h => h.db) ?_ hinit hsteps
  · exact hdb.lookup x hx
  intro a w req r w' hinv hkeeps hhandling
  have hdb := hinv.db_step hdis hkeeps hhandling
  refine ⟨hdb, fun retval a' hr => ?_⟩
  subst hr
  rcases hhandling with ⟨hw, hr⟩ | ⟨-, hperm, h⟩
  · have hholds := (hr _ _ rfl).2
    exact ⟨hholds.ok_same hinv.ok, hholds.username.trans hinv.user,
      hholds.privileged.trans hinv.unprivileged, hinv.name, hdb,
      fun s hs => hinv.held s (hholds.s.symm.trans hs)⟩
  · obtain ⟨huser, hpriv⟩ := h.client hinv.unprivileged hperm
    exact ⟨h.ok hinv.ok, huser.trans hinv.user, hpriv, hinv.name, hdb,
      h.held_disabled hinv hdis hkeeps hperm⟩

/-! ### A disabled user to try things with -/

def aliceDisabled : State := aliceState.setFlags (flagSalted ||| flagDisabled)

def disabledWorld : World :=
  World.boot (fun db => if db = .global then some (dbEntryText aliceDisabled) else none)
    fun _ => .good

/-- `SET_INT` of the flags to `FLAG_SALTED` and `FLAG_DISABLED`. -/
theorem disabled_stays_setInt : ∃ x, dbLookup (((mainLoop plainCrypto configRoot
    (Agent.start alice false) [.setInt 5 6]).run (Sys.exec 0) disabledWorld).2.file
      (dbLoc configRoot alice)) alice = some x ∧ x.flags &&& flagDisabled ≠ 0 := by
  have hsome : (dbLookup (((mainLoop plainCrypto configRoot (Agent.start alice false)
      [.setInt 5 6]).run (Sys.exec 0) disabledWorld).2.file (dbLoc configRoot alice))
        alice).isSome = true := by decide +kernel
  have hbefore : (dbLookup (disabledWorld.file (dbLoc configRoot alice)) alice).map
      (fun e => decide (e.flags &&& flagDisabled ≠ 0)) = some true := by decide +kernel
  obtain ⟨x, hx⟩ := Option.isSome_iff_exists.mp hsome
  obtain ⟨e, hlook, he⟩ := Option.map_eq_some_iff.mp hbefore
  refine ⟨x, hx, disabled_stays plainCrypto configRoot 0 disabledWorld alice [.setInt 5 6] e x rfl
    hlook (of_decide_eq_true he) ?_ hx⟩
  exact ⟨fun _ _ _ => by decide, fun _ _ _ => trivial⟩

/-- `SET_INT` of the flags to `FLAG_SALTED` alone is not checked. -/
theorem setInt_enables :
    ¬ ∀ (crypto : Crypto) (cfg : Cfg) (me : Pid) (w : World) (u : CString) (reqs : List Request)
      (e x : Entry), cfg.disabling = configDisallow →
      dbLookup (w.file (dbLoc cfg u)) u = some e → e.flags &&& flagDisabled ≠ 0 →
      dbLookup (((mainLoop crypto cfg (Agent.start u false) reqs).run
        (Sys.exec me) w).2.file (dbLoc cfg u)) u = some x → x.flags &&& flagDisabled ≠ 0 := by
  intro h
  have hafter : (dbLookup (((mainLoop plainCrypto configRoot (Agent.start alice false)
      [.setInt 5 4]).run (Sys.exec 0) disabledWorld).2.file (dbLoc configRoot alice))
        alice).map (fun x => decide (x.flags &&& flagDisabled ≠ 0)) = some false := by decide +kernel
  have hbefore : (dbLookup (disabledWorld.file (dbLoc configRoot alice)) alice).map
      (fun e => decide (e.flags &&& flagDisabled ≠ 0)) = some true := by decide +kernel
  obtain ⟨x, hx, hclear⟩ := Option.map_eq_some_iff.mp hafter
  obtain ⟨e, hlook, he⟩ := Option.map_eq_some_iff.mp hbefore
  exact of_decide_eq_false hclear (h plainCrypto configRoot 0 disabledWorld alice [.setInt 5 4] e x
    rfl hlook (of_decide_eq_true he) hx)

/-! ## Keys -/

/-- The request does not generate a key past the policy: the load by which
`KEY_GENERATE` looks for the user's key succeeds. -/
def FindsKey (cfg : Cfg) (me : Pid) (a : Agent) (w : World) (req : Request) : Prop :=
  req.type = .keyGenerate → a.s ≠ none → KeyFound cfg me a.username w

/-- The invariant of a run of the unprivileged client of `u`: the stored key
is `k`, and no state held has a new one. -/
structure KeyInv (cfg : Cfg) (u : CString) (k : Bytes 32) (a : Agent) (w : World) : Prop where
  ok : a.Ok
  user : a.username = u
  unprivileged : a.privileged = false
  name : ReadableName u
  db : Guarded cfg u (·.sequenceKey = k) w
  held : ∀ s, a.s = some s → s.newKey = false

section

variable {crypto : Crypto} {cfg : Cfg} {me : Pid} {a a' : Agent} {s s' : State} {req : Request}
  {w w' : World} {r : Option (ℕ × Agent)} {u : CString} {retval : ℕ} {k : Bytes 32}

theorem keyRemove_not_permitted (hrem : cfg.keyRemoval = configDisallow)
    (hp : a.privileged = false) (htype : req.type = .keyRemove) : ¬ Permitted cfg me a w req := by
  intro hperm
  rw [Permitted, if_neg (by simp [htype]), requestVerifyPolicy] at hperm
  simp only [htype] at hperm
  obtain ⟨hcode, -⟩ := ret_pair hperm
  rw [unlessPrivileged, if_pos ⟨hp, hrem⟩] at hcode
  simp at hcode

/-- No state with a new key is held after a request that does not generate one
past the policy. -/
theorem Effect.held_old (hinv : KeyInv cfg u k a w) (hregen : cfg.keyRegeneration = configDisallow)
    (hfinds : FindsKey cfg me a w req) (h : Effect crypto cfg me a w req (some (retval, a')) w') :
    ∀ s, a'.s = some s → s.newKey = false := by
  have hsame (h : a'.s = a.s) : ∀ s, a'.s = some s → s.newKey = false :=
    fun s hs => hinv.held s (h.symm.trans hs)
  have hnone (h : a'.s = none) : ∀ s, a'.s = some s → s.newKey = false :=
    fun s hs => nomatch h.symm.trans hs
  have hsome {s1 : State} (h : a'.s = some s1) (hold : s1.newKey = false) :
      ∀ s, a'.s = some s → s.newKey = false := by
    intro s hs
    obtain rfl := Option.some.inj (h.symm.trans hs)
    exact hold
  cases h with
  | refused hw hr => exact hsame (hr _ _ rfl).2.s
  | dropped hwhy hw hr => exact hnone (hr _ _ rfl).2.s
  | switched htype hw hr => exact hnone (hr _ _ rfl).1
  | put htype s hs hkey h hr => exact hnone (hr _ _ rfl).s
  | removed htype hs s lock e hfresh hlook h hr => exact hnone (hr _ _ rfl).s
  | cleared htype e h hr => exact hsame (hr _ _ rfl).s
  | created htype hs hw hr =>
    obtain ⟨junk, named, hholds⟩ := hr _ _ rfl
    exact hsome hholds.s (State.initial_fresh cfg junk a.username).newKey
  | read hro hw hr =>
    obtain ⟨s', hholds, hs' | ⟨s, s1, hs, rfl, hend⟩⟩ := hr _ _ rfl
    · subst hs'
      exact hsame hholds.s
    · have hheld := hinv.held s hs
      unfold ReadEnds at hend
      split_ifs at hend
      · obtain ⟨prompt, rfl⟩ := hend
        exact hsome hholds.s hheld
      · obtain ⟨prompt, rfl⟩ := hend
        exact hsome hholds.s hheld
  | loaded htype hs s e hfresh hlook hw hr => exact hsome (hr _ _ rfl).s hfresh.newKey
  | generated htype s pool hs hcheck hw hr =>
    -- the policy looks for a stored key, and finds one
    have hname := (hinv.ok.held s hs).username
    have hfound := hfinds htype (by simp [hs])
    rw [← hname] at hfound
    exact absurd hfound (hcheck hinv.unprivileged hregen)
  | changed s s' retval hnew hs hset hb hw hr =>
    exact hsome (hr _ _ rfl).2.s (hb.newKey.trans (hinv.held s hs))
  | unset s s' lock e retval hnew hfresh hlook hset hb hw hr =>
    obtain ⟨-, lock', -, hholds⟩ := hr _ _ rfl
    exact hsome hholds.s (hb.newKey.trans hfresh.newKey)
  | set s s' lock e hnew hfresh hset hb h hr =>
    obtain ⟨lock', -, hholds⟩ := hr _ _ rfl
    exact hsome hholds.s (hb.newKey.trans hfresh.newKey)
  | tried htype s hs hw hr =>
    obtain ⟨-, s', -, htried, hholds⟩ := hr _ _ rfl
    have hintact : Intact (w.file (dbLoc cfg a.username)) s.username := by
      rw [(hinv.ok.held s hs).username, hinv.user]
      exact hinv.db.intact
    refine hsome hholds.s ?_
    rcases htried.entry hintact with ⟨-, hkey⟩ | ⟨hkey, -⟩
    · exact hkey.trans (hinv.held s hs)
    · exact hkey.trans (hinv.held s hs)
  | counted htype s hs e hnew hallowed hskip h hr =>
    obtain ⟨lock, -, hholds⟩ := hr _ _ rfl
    refine hsome hholds.s ?_
    unfold Request.leaves
    split_ifs
    · exact hnew
    · exact hnew

/-- The stored key stays, and the entry with it. -/
theorem KeyInv.db_step (hinv : KeyInv cfg u k a w) (hrem : cfg.keyRemoval = configDisallow)
    (h : Handling crypto cfg me a w req r w') :
    Guarded cfg u (·.sequenceKey = k) w' ∧ (Present cfg u w → Present cfg u w') := by
  have hu := hinv.user
  have hname := hinv.name
  have hdb := hinv.db
  rw [← hu] at hname hdb ⊢
  constructor
  · refine h.db.preserves hname hdb (fun _ s hs hkey => ?_) fun e e' _ he hchange => ?_
    · simp [hinv.held s hs] at hkey
    · cases hchange with
      | set s s' lock hsets =>
        refine Eq.trans ?_ he
        exact hsets.key.1
      | counted => exact he
      | cleared => exact he
  · intro hpresent
    rcases h with ⟨hw, -⟩ | ⟨-, hperm, h⟩
    · exact hpresent.keeps hw
    · refine h.db.present hpresent (fun _ => hinv.held) fun htype => ?_
      exact keyRemove_not_permitted hrem hinv.unprivileged htype hperm

end

/-! ### Runs -/

/-- While key regeneration and removal are off, no run of a user's unprivileged
client changes the key of his stored entry, or loses the entry, as long as each
`KEY_GENERATE` finds the key it must not replace. -/
theorem key_stays (crypto : Crypto) (cfg : Cfg) (me : Pid) (w : World) (u : CString)
    (reqs : List Request) (e : Entry) (hregen : cfg.keyRegeneration = configDisallow)
    (hrem : cfg.keyRemoval = configDisallow)
    (hlook : dbLookup (w.file (dbLoc cfg u)) u = some e)
    (hsteps : Along crypto cfg me (FindsKey cfg me) (Agent.start u false) w reqs) :
    (∀ x, dbLookup (((mainLoop crypto cfg (Agent.start u false) reqs).run
        (Sys.exec me) w).2.file (dbLoc cfg u)) u = some x → x.sequenceKey = e.sequenceKey) ∧
      (w.AllOk ∨ OneLine u (w.file (dbLoc cfg u)) →
        ∃ x, dbLookup (((mainLoop crypto cfg (Agent.start u false) reqs).run
          (Sys.exec me) w).2.file (dbLoc cfg u)) u = some x) := by
  have hguarded : Guarded cfg u (·.sequenceKey = e.sequenceKey) w := by
    refine ⟨fun e' h => ?_, .of_lookup hlook⟩
    obtain rfl := Option.some.inj (hlook.symm.trans h)
    rfl
  have hinit : KeyInv cfg u e.sequenceKey (Agent.start u false) w :=
    ⟨Agent.start_ok u false, rfl, rfl, dbLookup_readable hlook, hguarded, fun _ h => nomatch h⟩
  have hdb := mainLoop_db
    (J := fun a w' => KeyInv cfg u e.sequenceKey a w' ∧ (Present cfg u w → Present cfg u w'))
    (D := fun w' => Guarded cfg u (·.sequenceKey = e.sequenceKey) w' ∧
      (Present cfg u w → Present cfg u w'))
    (fun _ _ h => h.1.ok) (fun _ _ h => ⟨h.1.db, h.2⟩) ?_ ⟨hinit, id⟩ hsteps
  · exact ⟨hdb.1.lookup, fun hwhole => (hdb.2 ⟨⟨e, hlook⟩, hwhole⟩).found⟩
  rintro a w1 req r w2 ⟨hinv, hpresent⟩ hfinds hhandling
  obtain ⟨hdb, hstay⟩ := hinv.db_step hrem hhandling
  have hpresent' : Present cfg u w → Present cfg u w2 := fun h => hstay (hpresent h)
  refine ⟨⟨hdb, hpresent'⟩, fun retval a' hr => ⟨?_, hpresent'⟩⟩
  subst hr
  rcases hhandling with ⟨hw, hr⟩ | ⟨-, hperm, h⟩
  · have hholds := (hr _ _ rfl).2
    exact ⟨hholds.ok_same hinv.ok, hholds.username.trans hinv.user,
      hholds.privileged.trans hinv.unprivileged, hinv.name, hdb,
      fun s hs => hinv.held s (hholds.s.symm.trans hs)⟩
  · obtain ⟨huser, hpriv⟩ := h.client hinv.unprivileged hperm
    exact ⟨h.ok hinv.ok, huser.trans hinv.user, hpriv, hinv.name, hdb,
      h.held_old hinv hregen hfinds⟩

/-! ### A spent key to try things with -/

instance (cfg : Cfg) (me : Pid) (u : CString) (w : World) : Decidable (KeyFound cfg me u w) :=
  decidable_of_iff (∀ retval ∈ ((keyLoad cfg u).run (Sys.exec me) w).1, retval = 0) <| by
    constructor
    · intro h retval w' hrun
      exact h retval (by rw [hrun]; rfl)
    · intro h retval hret
      exact h retval _ (Prod.ext hret rfl)

instance (cfg : Cfg) (me : Pid) (a : Agent) (w : World) (req : Request) :
    Decidable (FindsKey cfg me a w req) :=
  decidable_of_iff (req.type = .keyGenerate → a.s.isSome = true → KeyFound cfg me a.username w) <| by
    rw [FindsKey, Option.isSome_iff_ne_none]

def configKeep : Cfg :=
  { configRoot with keyRegeneration := configDisallow, keyRemoval := configDisallow }

/-- Every block as it is, and one digest for all texts. -/
def onesCrypto : Crypto := { plainCrypto with sha256 := fun _ => ⟨List.replicate 32 1, by simp⟩ }

def aliceSpent : State := aliceState.setCounter (numI 0xFFFFFFFF)

def spentWorld : World :=
  World.boot (fun db => if db = .global then some (dbEntryText aliceSpent) else none)
    fun _ => .good

/-- A client who loads his state is refused a new key. -/
theorem key_stays_keyGenerate :
    ∃ e x, dbLookup (aliceWorld.file (dbLoc configKeep alice)) alice = some e ∧
      dbLookup (((mainLoop onesCrypto configKeep (Agent.start alice false)
        [.plain .stateLoad, .plain .keyGenerate, .plain .stateStore]).run
          (Sys.exec 0) aliceWorld).2.file (dbLoc configKeep alice)) alice = some x ∧
      x.sequenceKey = e.sequenceKey := by
  have hbefore : (dbLookup (aliceWorld.file (dbLoc configKeep alice)) alice).isSome = true := by
    decide +kernel
  have hafter : (dbLookup (((mainLoop onesCrypto configKeep (Agent.start alice false)
      [.plain .stateLoad, .plain .keyGenerate, .plain .stateStore]).run
        (Sys.exec 0) aliceWorld).2.file (dbLoc configKeep alice)) alice).isSome = true := by
    decide +kernel
  have hsteps : Along onesCrypto configKeep 0 (FindsKey configKeep 0) (Agent.start alice false)
      aliceWorld [.plain .stateLoad, .plain .keyGenerate, .plain .stateStore] := by decide +kernel
  obtain ⟨e, he⟩ := Option.isSome_iff_exists.mp hbefore
  obtain ⟨x, hx⟩ := Option.isSome_iff_exists.mp hafter
  exact ⟨e, x, he, hx, (key_stays onesCrypto configKeep 0 aliceWorld alice
    [.plain .stateLoad, .plain .keyGenerate, .plain .stateStore] e rfl rfl he hsteps).1 x hx⟩

/-- The check takes a key without passcodes left for no key. -/
theorem spent_key_changes :
    ¬ ∀ (crypto : Crypto) (cfg : Cfg) (me : Pid) (w : World) (u : CString) (reqs : List Request)
      (e x : Entry), cfg.keyRegeneration = configDisallow → cfg.keyRemoval = configDisallow →
      dbLookup (w.file (dbLoc cfg u)) u = some e →
      dbLookup (((mainLoop crypto cfg (Agent.start u false) reqs).run
        (Sys.exec me) w).2.file (dbLoc cfg u)) u = some x → x.sequenceKey = e.sequenceKey := by
  intro h
  have hbefore : (dbLookup (spentWorld.file (dbLoc configKeep alice)) alice).map
      (fun e => decide (e.sequenceKey = Bytes.zero 32)) = some true := by decide +kernel
  have hafter : (dbLookup (((mainLoop onesCrypto configKeep (Agent.start alice false)
      [.plain .stateLoad, .plain .keyGenerate, .plain .stateStore]).run
        (Sys.exec 0) spentWorld).2.file (dbLoc configKeep alice)) alice).map
      (fun x => decide (x.sequenceKey = Bytes.zero 32)) = some false := by decide +kernel
  obtain ⟨e, he, hzero⟩ := Option.map_eq_some_iff.mp hbefore
  obtain ⟨x, hx, hone⟩ := Option.map_eq_some_iff.mp hafter
  have hkey := h onesCrypto configKeep 0 spentWorld alice
    [.plain .stateLoad, .plain .keyGenerate, .plain .stateStore] e x rfl rfl he hx
  exact of_decide_eq_false hone (hkey.trans (of_decide_eq_true hzero))

end Otpasswd
