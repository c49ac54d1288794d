import Otpasswd.Agent.Audit
import Otpasswd.Libotp.FreshKey

/-!
# Otpasswd.Agent.NewKey — a key that is generated on the defaults

`STATE_NEW`, `KEY_GENERATE` and `STATE_STORE`, with no setter in between: the
entry that is stored comes from the configuration, from the memory that
`malloc` returned and from the random bytes.

Main result: `newKey_usable_iff`.
-/

namespace Otpasswd

open CText Prog

/-- What `malloc` returned in the last call but one; the last one copies the
user name. -/
def World.memory (w : World) : Junk := (w.io (w.tick - 2)).junk

/-- The random bytes of the last two calls. -/
def World.pool (w : World) : List Byte :=
  (Bytes.ofList 20 (w.io (w.tick - 2)).bytes).val ++ (Bytes.ofList 1004 (w.io (w.tick - 1)).bytes).val

section

variable {crypto : Crypto} {cfg : Cfg} {me : Pid} {a a' : Agent} {s : State} {req : Request}
  {w w' : World}

/-! ## `STATE_NEW` -/

theorem stateNew_memory (hcfg : 2 ≤ cfg.passcodeDefLength ∧ cfg.passcodeDefLength ≤ 16)
    (hok : a.Ok) (htype : req.type = .stateNew)
    (hrun : handled crypto cfg me a w req = (some (0, a'), w')) (hanswer : a.AnsweredOk a') :
    ∃ named, a.Holds a' (some ((State.initial cfg w'.memory a.username).setNamed named)) true := by
  have hrefused {status : ℕ} (h : status ≠ 0) : ¬ a.AnsweredOk (a.sendReply status) :=
    fun hok => h (hok.status rfl)
  have hwp : wp (Sys.exec me) (requestHandle crypto cfg a req) (fun r w' => ∀ a',
      r = some (0, a') → a.AnsweredOk a' → ∃ named,
        a.Holds a' (some ((State.initial cfg w'.memory a.username).setNamed named)) true) w := by
    cases hl : a.locked with
    | true =>
      rw [requestHandle, if_pos hl]
      rintro _ ⟨rfl, rfl⟩
    | false =>
      rw [requestHandle, if_neg (by simp [hl])]
      have hpolicy : requestVerifyPolicy cfg a req = verifyStateNew cfg a := by
        simp only [requestVerifyPolicy, htype]
      rw [hpolicy]
      refine wp_seq (verifyStateNew_spec hok) (fun w1 h1 => by simp) ?_
      rintro ⟨code, a1⟩ w1 ⟨-, hr⟩
      obtain ⟨rfl, hcode⟩ := hr code a1 rfl
      simp only
      -- only a policy that says nothing lets the state be made
      by_cases hpol : code = agentErrPolicy
      · rw [if_pos hpol]
        rintro _ ⟨rfl, rfl⟩ hanswer
        exact absurd hanswer (hrefused (by simp))
      rw [if_neg hpol]
      by_cases hzero : code = 0
      · rw [if_neg (not_not.mpr hzero)]
        have hs := (hcode hzero).1
        unfold requestExecute
        simp only [htype]
        rw [if_neg (by simp [hs])]
        have hexec : Sys.exec me .mallocState w1 = (if w1.next.ok = true then some w1.next.junk
          else none, { w1 with tick := w1.tick + 1 }) := rfl
        by_cases hn : a1.named = true
        · rw [agentStateInit_new hcfg hn hs]
          simp only [wp_issue_bind, LawfulMonad.bind_assoc]
          rw [hexec]
          by_cases hmalloc : w1.next.ok = true
          · rw [if_pos hmalloc]
            rintro _ ⟨rfl, rfl⟩ -
            have hholds (named : Bool) : a1.Holds ((a1.setS (some ((State.initial cfg w1.next.junk
              a1.username).setNamed named))).setNewState true)
              (some ((State.initial cfg w1.next.junk a1.username).setNamed named)) true :=
              ⟨rfl, rfl, rfl, rfl, rfl⟩
            exact ⟨_, (hholds _).reply _⟩
          · rw [if_neg hmalloc]
            rintro _ ⟨⟩
        · -- the name could not be copied
          rw [agentStateInit_aborts (fun h => hn h.2) hs]
          simp only [wp_issue_bind, LawfulMonad.bind_assoc]
          rw [hexec]
          by_cases hmalloc : w1.next.ok = true
          · rw [if_pos hmalloc]
            rintro _ ⟨⟩
          · rw [if_neg hmalloc]
            rintro _ ⟨⟩
      · rw [if_pos hzero]
        rintro _ ⟨rfl, rfl⟩ hanswer
        exact absurd hanswer (hrefused hzero)
  unfold wp at hwp
  unfold handled at hrun
  rw [hrun] at hwp
  exact hwp a' rfl hanswer

/-! ## `KEY_GENERATE` -/

/-- The random bytes are read last. -/
theorem stateKeyGenerate_pool :
    wp (Sys.exec me) (stateKeyGenerate crypto s)
      (fun r w' => ∀ s', r = some (0, s') → s' = s.generated crypto w'.pool) w := by
  have hrng (n : ℕ) (w : World) : Sys.exec me (.rng n) w =
      (if w.next.ok = true then some (Bytes.ofList n w.next.bytes) else none,
        { w with tick := w.tick + 1 }) := rfl
  refine (wp_issue_bind _).mpr ?_
  rw [hrng]
  by_cases hreal : w.next.ok = true
  swap
  · rw [if_neg hreal]
    rintro _ ⟨⟩
  rw [if_pos hreal]
  refine (wp_issue_bind _).mpr ?_
  rw [hrng]
  by_cases hpseudo : ({ w with tick := w.tick + 1 } : World).next.ok = true
  swap
  · rw [if_neg hpseudo]
    rintro _ ⟨⟩
  rw [if_pos hpseudo]
  by_cases hsalt : s.flags &&& flagSalted = 0
  · simp only [if_pos hsalt]
    rintro _ ⟨rfl, rfl⟩
    rw [State.generated, if_pos hsalt]
    rfl
  · simp only [if_neg hsalt]
    rintro _ ⟨rfl, rfl⟩
    rw [State.generated, if_neg hsalt]
    rfl

theorem keyGenerate_pool (hok : a.Ok) (htype : req.type = .keyGenerate) (hs : a.s = some s)
    (hrun : handled crypto cfg me a w req = (some (0, a'), w')) (hanswer : a.AnsweredOk a') :
    a.Holds a' (some (s.generated crypto w'.pool)) a.newState := by
  have hwp : wp (Sys.exec me) (requestHandle crypto cfg a req) (fun r w' => ∀ a',
      r = some (0, a') → a.AnsweredOk a' →
        a.Holds a' (some (s.generated crypto w'.pool)) a.newState) w := by
    cases hl : a.locked with
    | true =>
      rw [requestHandle, if_pos hl]
      rintro _ ⟨rfl, rfl⟩
    | false =>
      rw [requestHandle, if_neg (by simp [hl])]
      obtain ⟨code, hcode⟩ := @requestVerifyPolicy_ret cfg a req (by simp [htype])
      rw [hcode, ret_bind]
      simp only
      by_cases hpol : code = agentErrPolicy
      · rw [if_pos hpol]
        rintro _ ⟨rfl, rfl⟩ hanswer
        exact absurd (hanswer.status rfl) (by decide)
      rw [if_neg hpol]
      by_cases hzero : code = 0
      swap
      · rw [if_pos hzero]
        rintro _ ⟨rfl, rfl⟩ hanswer
        exact absurd (hanswer.status rfl) hzero
      rw [if_neg (not_not.mpr hzero)]
      unfold requestExecute
      simp only [htype, hs]
      -- with or without the check of an existing key, the bytes are those of the pool
      have hkey : wp (Sys.exec me) (pppKeyGenerate crypto cfg s { checkPolicy := !a.privileged })
          (fun r w' => ∀ s', r = some (0, s') → s' = s.generated crypto w'.pool) w := by
        rw [pppKeyGenerate_eq _ (hok.unlocked hl hs)]
        split_ifs with hpolicy
        · refine wp_seq wp_run (fun w1 _ => by simp) fun retval w1 _ => ?_
          by_cases hret : retval = 0
          · rw [if_pos hret]
            rintro _ ⟨⟩
          · rw [if_neg hret]
            exact stateKeyGenerate_pool
        · exact stateKeyGenerate_pool
      refine wp_seq hkey (fun w1 _ => by simp) ?_
      rintro ⟨retval, s1⟩ w1 hs1
      rintro _ ⟨rfl, rfl⟩ hanswer
      obtain rfl : retval = 0 := hanswer.status rfl
      obtain rfl := hs1 s1 rfl
      have hholds : a.Holds (a.setS (some (s.generated crypto w1.pool)))
        (some (s.generated crypto w1.pool)) a.newState := ⟨rfl, rfl, rfl, rfl, rfl⟩
      exact hholds.reply _
  unfold wp at hwp
  unfold handled at hrun
  rw [hrun] at hwp
  exact hwp a' rfl hanswer

/-! ## `STATE_STORE` -/

/-- A store that is answered with success has written a new key. -/
theorem stateStore_put (hok : a.Ok) (htype : req.type = .stateStore)
    (hrun : handled crypto cfg me a w req = (some (0, a'), w')) (hanswer : a.AnsweredOk a') :
    ∃ s, a.s = some s ∧ s.newKey = true ∧ Updated cfg s false w w' := by
  have hhandling : Handling crypto cfg me a w req (some (0, a')) w' := by
    have h := @handled_handling crypto cfg me a req w hok
    rwa [hrun] at h
  have hsets {s s' : State} {retval : ℕ} (h : req.Sets cfg a.privileged s retval s') : False := by
    unfold Request.Sets at h
    rw [htype] at h
    exact h
  rcases hhandling with ⟨-, hr⟩ | ⟨-, -, heffect⟩
  · exact absurd hanswer (hr _ _ rfl).1
  cases heffect with
  | refused hw hr => exact absurd hanswer (hr _ _ rfl).1
  | read hro hw =>
    unfold Request.ReadOnly at hro
    rw [htype] at hro
    exact absurd hro (by decide)
  | dropped hwhy hw hr => exact absurd hanswer ((hr _ _ rfl).1 (by simp [htype]))
  | put _ s hs hkey h => exact ⟨s, hs, hkey, h⟩
  | changed s s' ret hnew hs h => exact (hsets h).elim
  | unset s s' lock e ret hnew hfresh hlook h => exact (hsets h).elim
  | set s s' lock e hnew hfresh h => exact (hsets h).elim
  | switched h => cases htype.symm.trans h
  | created h => cases htype.symm.trans h
  | loaded h => cases htype.symm.trans h
  | generated h => cases htype.symm.trans h
  | removed h => cases htype.symm.trans h
  | tried h =>
    rcases h with h | h
    · cases htype.symm.trans h
    · cases htype.symm.trans h
  | counted h =>
    rcases h with h | h
    · cases htype.symm.trans h
    · cases htype.symm.trans h
  | cleared h => cases htype.symm.trans h

end

/-! ## The stored key -/

/-- The entry of `u` in the database of `w` loads, passes `ppp_state_verify` and
can be incremented: whoever does it, with no call failing and no lock held, on a
state that has its user name. -/
def KeyUsable (cfg : Cfg) (u : CString) (w : World) : Prop :=
  ∀ (me : Pid) (s : State) (w' : World), s.Fresh u → s.named = true → w'.Serves cfg me → w'.Free →
    w'.file = w.file →
    (∃ s1 w1, (pppStateLoad cfg s {}).run (Sys.exec me) w' = (some (0, s1), w1) ∧
      pppStateVerify cfg s1 = .ret 0) ∧
    ∃ s1 w1, (pppIncrement cfg s).run (Sys.exec me) w' = (some (0, s1), w1)

section

variable {cfg : Cfg} {me : Pid} {u : CString} {w : World} {e : Entry}

theorem keyUsable_of_allowed (he : dbLookup (w.file (dbLoc cfg u)) u = some e)
    (hallowed : e.Allowed cfg) (hcopy : CopyableFile u (w.file (dbLoc cfg u))) :
    KeyUsable cfg u w := by
  intro me s w' hs hn hserves hfree hfile
  obtain rfl := hs.username
  rw [← hfile] at he hcopy
  have hv := dbLookup_valid he
  constructor
  · have hload := pppStateLoad_ok hserves hn hfree hs.lock he
    obtain ⟨-, fd, ⟨-, hr, -⟩ | ⟨hrange, -⟩⟩ := hload
    · refine ⟨_, _, Prod.ext hr rfl, ?_⟩
      have hcodes : 0 < (s.loaded fd.val e).codesOnCard :=
        calculate_codesOnCard hv.codeLength_ge hv.codeLength_le
      rw [pppStateVerify_eq hcodes, if_pos ((loaded_allowed hs.codeMask hv).mpr hallowed).1]
    · exact absurd ((loaded_verifyRange s fd.val e hs.codeMask hv).mpr hallowed.range) hrange
  · obtain ⟨⟨s1, hr, -⟩, -⟩ :=
      pppIncrement_ok hserves hn hfree hs.lock hs.newKey hs.codeMask he hallowed hcopy
    exact ⟨s1, _, Prod.ext hr rfl⟩

/-- What can be incremented is there, and allowed. -/
theorem KeyUsable.allowed (h : KeyUsable cfg u w) (hruns : Runs cfg (w.uid me) true) :
    ∃ e, dbLookup (w.file (dbLoc cfg u)) u = some e ∧ e.Allowed cfg := by
  have hs := State.initial_fresh cfg Outcome.good.junk u
  obtain ⟨-, s1, w1, hrun⟩ := h me _
    { w with io := fun _ => Outcome.serving cfg, owner := fun _ => none } hs rfl
    ⟨fun _ => Outcome.serving_serves cfg, hruns⟩ (fun _ => rfl) rfl
  have hspec := pppIncrement_spec me cfg (State.initial cfg Outcome.good.junk u) hs.codeMask
    { w with io := fun _ => Outcome.serving cfg, owner := fun _ => none }
  unfold wp at hspec
  rw [hrun] at hspec
  cases hspec with
  | kept hw hr => exact absurd rfl (hr s1)
  | replaced fd e hallowed h => exact ⟨e, h.before, hallowed⟩

end

/-! ## The default configuration -/

/-- The configuration file that only names the database. -/
def globalConfig : List Char := "db=global\n".toList

def globalCfg : Config := { configStart with db := .global }

theorem globalConfig_parses :
    configParse (fun _ => none) configStart (some globalConfig) = .ret 0 globalCfg := rfl

/-- A system without keys, whose memory holds these flags. -/
def keylessWorld (flags : Word32) : World :=
  World.boot (fun db => if db = .global then some [] else none)
    fun _ => { Outcome.serving globalCfg.toCfg with junk := ⟨flags, Bytes.zero 40⟩ }

/-- The requests of a user who takes the defaults. -/
def newKeyRequests : List Request := [.plain .stateNew, .plain .keyGenerate, .plain .stateStore]

/-- The request is answered with success, and what is stored has these flags. -/
def StoresFlags (flags : Word32) (a : Agent) (w : World) (req : Request) : Prop :=
  RepliesOk plainCrypto globalCfg.toCfg 0 a w req ∧
    Onward (fun _ w' => req.type = .stateStore →
      (dbLookup (w'.file (dbLoc globalCfg.toCfg alice)) alice).map Entry.flags = some flags)
      (handled plainCrypto globalCfg.toCfg 0 a w req)

instance (flags : Word32) (a : Agent) (w : World) (req : Request) :
    Decidable (StoresFlags flags a w req) :=
  inferInstanceAs (Decidable (_ ∧ _))

/-- The steps of alice, from the memory to the database. -/
structure KeyStored (memory flags : Word32) (a1 a2 a3 : Agent) (w1 w2 w3 : World) : Prop where
  created : handled plainCrypto globalCfg.toCfg 0 (Agent.start alice false) (keylessWorld memory)
    (.plain .stateNew) = (some (0, a1), w1)
  createdOk : (Agent.start alice false).AnsweredOk a1
  generated : handled plainCrypto globalCfg.toCfg 0 a1 w1 (.plain .keyGenerate) = (some (0, a2), w2)
  generatedOk : a1.AnsweredOk a2
  stored : handled plainCrypto globalCfg.toCfg 0 a2 w2 (.plain .stateStore) = (some (0, a3), w3)
  storedOk : a2.AnsweredOk a3
  flags : (dbLookup (w3.file (dbLoc globalCfg.toCfg alice)) alice).map Entry.flags = some flags

theorem exists_keyStored {memory flags : Word32}
    (h : Along plainCrypto globalCfg.toCfg 0 (StoresFlags flags) (Agent.start alice false)
      (keylessWorld memory) newKeyRequests) :
    ∃ a1 a2 a3 w1 w2 w3, KeyStored memory flags a1 a2 a3 w1 w2 w3 := by
  obtain ⟨⟨⟨a1, w1, hrun1, hok1⟩, -⟩, h⟩ := h
  obtain ⟨⟨⟨a2, w2, hrun2, hok2⟩, -⟩, h⟩ := h a1 w1 hrun1
  obtain ⟨⟨⟨a3, w3, hrun3, hok3⟩, hflags⟩, -⟩ := h a2 w2 hrun2
  exact ⟨a1, a2, a3, w1, w2, w3, hrun1, hok1, hrun2, hok2, hrun3, hok3,
    onward_iff.mp hflags a3 w3 hrun3 rfl⟩

section

variable {memory flags : Word32} {a1 a2 a3 : Agent} {w1 w2 w3 : World}

theorem KeyStored.io (h : KeyStored memory flags a1 a2 a3 w1 w2 w3) :
    w1.io = (keylessWorld memory).io ∧ w2.io = (keylessWorld memory).io ∧
      w3.uid = (keylessWorld memory).uid := by
  obtain ⟨h1, hu1⟩ := handled_io _ _ _ h.created
  obtain ⟨h2, hu2⟩ := handled_io _ _ _ h.generated
  obtain ⟨-, hu3⟩ := handled_io _ _ _ h.stored
  exact ⟨h1, h2.trans h1, hu3.trans (hu2.trans hu1)⟩

theorem KeyStored.runs (h : KeyStored memory flags a1 a2 a3 w1 w2 w3) :
    Runs globalCfg.toCfg (w3.uid 0) true where
  name := rfl
  db := .inl rfl
  caller := by
    rw [h.io.2.2]
    exact .inl rfl

end

/-- A key generated on the defaults of an accepted configuration is usable
exactly under the conditions of `Fits`. -/
theorem newKey_usable_iff {pw : Accounts} {file : Option (List Char)} {cfg : Config}
    (hparse : configParse pw configStart file = .ret 0 cfg) {crypto : Crypto} {me : Pid}
    {a a1 a2 a3 : Agent} {w1 w1' w2 w2' w3 w3' : World} {req1 req2 req3 : Request} (hok : a.Ok)
    (hu : ReadableName a.username)
    (hnew : req1.type = .stateNew)
    (hrun1 : handled crypto cfg.toCfg me a w1 req1 = (some (0, a1), w1')) (hok1 : a.AnsweredOk a1)
    (hgenerate : req2.type = .keyGenerate)
    (hrun2 : handled crypto cfg.toCfg me a1 w2 req2 = (some (0, a2), w2')) (hok2 : a1.AnsweredOk a2)
    (hstore : req3.type = .stateStore)
    (hrun3 : handled crypto cfg.toCfg me a2 w3 req3 = (some (0, a3), w3')) (hok3 : a2.AnsweredOk a3)
    (hall : w3.AllOk) (hruns : Runs cfg.toCfg (w3'.uid me) true) :
    KeyUsable cfg.toCfg a.username w3' ↔ Fits crypto cfg.toCfg w1'.memory w2'.pool := by
  have hcfg := configParse_accepted hparse
  have hfresh := State.initial_fresh cfg.toCfg w1'.memory a.username
  -- the three answers: the state that is made, the key, and what is stored
  obtain ⟨named, hholds1⟩ := stateNew_memory hcfg.passcodeDefLength hok hnew hrun1 hok1
  have hheld := (hfresh.setNamed named).held (Nat.zero_le _)
  have hholds2 := keyGenerate_pool (hholds1.ok_some hheld) hgenerate hholds1.s hrun2 hok2
  have hgenerated : (((State.initial cfg.toCfg w1'.memory a.username).setNamed named).generated
      crypto w2'.pool).Held a1.username := by
    rw [hholds1.username]
    exact hheld.generated w2'.pool
  obtain ⟨s, hs, -, hupdated⟩ := stateStore_put (hholds2.ok_some hgenerated) hstore hrun3 hok3
  obtain rfl := Option.some.inj (hs.symm.trans hholds2.s)
  -- the user and the entry of that state, whether or not the name was copied
  have huser : (((State.initial cfg.toCfg w1'.memory a.username).setNamed named).generated
      crypto w2'.pool).username = a.username := hgenerated.username.trans hholds1.username
  have hentry : (((State.initial cfg.toCfg w1'.memory a.username).setNamed named).generated
      crypto w2'.pool).entry = freshEntry crypto cfg.toCfg w1'.memory a.username w2'.pool := by
    rw [State.generated_setNamed]
    rfl
  obtain ⟨-, -, -, hlabel, hcontact⟩ :=
    freshEntry_fields crypto cfg.toCfg w1'.memory a.username w2'.pool
  generalize ((State.initial cfg.toCfg w1'.memory a.username).setNamed named).generated crypto
    w2'.pool = s at *
  rw [← freshEntry_iff hcfg w1'.memory a.username w2'.pool]
  rw [← hentry] at hlabel hcontact ⊢
  rw [← huser] at hu ⊢
  constructor
  · intro h
    -- usable: what is looked up is what was stored
    obtain ⟨e, he, hallowed⟩ := h.allowed hruns
    obtain ⟨⟨new, hnew, hfile⟩, -⟩ := id hupdated
    have hv : s.entry.Valid := by
      rw [hfile, Function.update_self] at he
      refine hnew.valid_of_lookup hu ?_ ?_ he
      · rw [show s.label = s.entry.label from rfl, hlabel]
        rfl
      · rw [show s.contact = s.entry.contact from rfl, hcontact]
        rfl
    obtain rfl := hupdated.lookup hu hv he
    exact ⟨hv, hallowed⟩
  · -- what fits is read back, and the policy allows it
    rintro ⟨hv, hallowed⟩
    exact keyUsable_of_allowed (hupdated.lookup_eq hu hv hall) hallowed
      (hupdated.copyable hu hv hall)

/-- Where the memory holds no flags, the default key is usable. -/
theorem newKey_usable_iff_clear : ∃ a1 a2 a3 w1 w2 w3, KeyStored 0 4 a1 a2 a3 w1 w2 w3 ∧
    (KeyUsable globalCfg.toCfg alice w3 ↔ Fits plainCrypto globalCfg.toCfg w1.memory w2.pool) ∧
    KeyUsable globalCfg.toCfg alice w3 := by
  obtain ⟨a1, a2, a3, w1, w2, w3, h⟩ := @exists_keyStored 0 4 (by decide +kernel)
  obtain ⟨hio1, hio2, -⟩ := h.io
  have hiff := newKey_usable_iff globalConfig_parses (Agent.start_ok alice false)
    alice_readable rfl h.created h.createdOk rfl h.generated h.generatedOk rfl h.stored
    h.storedOk (fun t => by rw [hio2]; rfl) h.runs
  refine ⟨a1, a2, a3, w1, w2, w3, h, hiff, hiff.mpr ?_⟩
  have hmemory : w1.memory = ⟨0, Bytes.zero 40⟩ := by
    rw [World.memory, hio1]
    rfl
  rw [hmemory]
  refine ⟨.inr ⟨by decide, by decide, fun _ => rfl, fun h => absurd h (by decide)⟩, by decide,
    by decide, fun _ => ?_⟩
  have hhash : plainCrypto.sha256 (w2.pool.drop 512) = Bytes.zero 32 := rfl
  rw [hhash]
  decide +kernel

/-- The flags of the memory disable the default key. -/
theorem memory_disables_newKey :
    ¬ ∀ (pw : Accounts) (file : Option (List Char)) (cfg : Config),
      configParse pw configStart file = .ret 0 cfg →
      ∀ (crypto : Crypto) (me : Pid) (a a1 a2 a3 : Agent) (w1 w1' w2 w2' w3 w3' : World)
        (req1 req2 req3 : Request), a.Ok → ReadableName a.username → req1.type = .stateNew →
        handled crypto cfg.toCfg me a w1 req1 = (some (0, a1), w1') → a.AnsweredOk a1 →
        req2.type = .keyGenerate →
        handled crypto cfg.toCfg me a1 w2 req2 = (some (0, a2), w2') → a1.AnsweredOk a2 →
        req3.type = .stateStore →
        handled crypto cfg.toCfg me a2 w3 req3 = (some (0, a3), w3') → a2.AnsweredOk a3 →
        w3.AllOk → Runs cfg.toCfg (w3'.uid me) true → KeyUsable cfg.toCfg a.username w3' := by
  intro hlaw
  obtain ⟨a1, a2, a3, w1, w2, w3, h⟩ := @exists_keyStored 2 6 (by decide +kernel)
  obtain ⟨-, hio2, -⟩ := h.io
  have husable := hlaw _ _ _ globalConfig_parses _ _ _ _ _ _ _ _ _ _ _ _ _ _ _
    (Agent.start_ok alice false) alice_readable rfl h.created h.createdOk rfl h.generated
    h.generatedOk rfl h.stored h.storedOk (fun t => by rw [hio2]; rfl) h.runs
  obtain ⟨e, he, hallowed⟩ := husable.allowed h.runs
  have hflags := h.flags
  have hlook : dbLookup (w3.file (dbLoc globalCfg.toCfg alice)) alice = some e := he
  rw [hlook] at hflags
  have henabled := hallowed.enabled
  rw [Option.some.inj hflags] at henabled
  exact absurd henabled (by decide)

end Otpasswd
