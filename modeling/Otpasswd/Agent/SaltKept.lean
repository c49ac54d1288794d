import Otpasswd.Agent.Stored
import Otpasswd.Libotp.Budget

/-!
# Otpasswd.Agent.SaltKept — the salt of a stored counter

The operations on a key, by the library and by the requests of any number of
clients, one after the other. All of them leave the upper part of the counter as
it is, but for `ppp_skip`: it looks the salt up in the counter that it has just
overwritten.

Main results: `SaltOp.step`, `saltConstant_iff` and `skip_loses_salt`.
-/

namespace Otpasswd

open CText Prog

/-- An operation on the key of a user. -/
inductive SaltOp where
  /-- `ppp_increment` or `ppp_skip`. -/
  | counter (x : CounterCall)
  | failures (me : Pid) (s : State) (zero : Bool)
  | oobTime (me : Pid) (s : State)
  | request (me : Pid) (a : Agent) (req : Request)

/-- The salt of a counter. -/
def Entry.salt (e : Entry) : Num := numAnd e.counter saltMask

namespace SaltOp

variable (crypto : Crypto) (cfg : Cfg)

/-- The world after the operation. -/
def exec : SaltOp → World → World
  | .counter x, w => (x.exec cfg w).2
  | .failures me s zero, w => ((pppFailures cfg s zero).run (Sys.exec me) w).2
  | .oobTime me s, w => ((pppOobTime cfg s).run (Sys.exec me) w).2
  | .request me a req, w => (handled crypto cfg me a w req).2

/-- The operation returns success, or is answered with it. -/
def Succeeds : SaltOp → World → Prop
  | .counter x, w => ∃ s', (x.exec cfg w).1 = some (0, s')
  | .failures me s zero, w => ((pppFailures cfg s zero).run (Sys.exec me) w).1 = some 0
  | .oobTime me s, w => ((pppOobTime cfg s).run (Sys.exec me) w).1 = some 0
  | .request me a req, w => RepliesOk crypto cfg me a w req

/-- The operation is about the key of `u`. -/
def For (u : CString) : SaltOp → Prop
  | .counter x => x.mem.For u
  | .failures _ s _ => s.username = u
  | .oobTime _ s => s.username = u
  | .request _ a _ => a.Ok ∧ a.username = u

/-- It changes neither the key nor the flag of the salt. -/
def KeepsKey : SaltOp → Prop
  | .request _ _ req =>
    req.type ≠ .stateStore ∧ req.type ≠ .keyRemove ∧
      (req.type = .flagClear → req.int &&& flagSalted = 0) ∧
      (req.type = .setInt → PppField.ofNum req.int = .flags → req.int2 &&& flagSalted ≠ 0)
  | _ => True

/-- It skips passcodes. -/
def Skips : SaltOp → Prop
  | .counter x => x.skipTo ≠ none
  | .request _ _ req => req.type = .skip
  | _ => False

instance : DecidablePred Skips
  | .counter _ => inferInstanceAs (Decidable (_ ≠ _))
  | .failures _ _ _ => isFalse id
  | .oobTime _ _ => isFalse id
  | .request _ _ _ => inferInstanceAs (Decidable (_ = _))

end SaltOp

/-! ## One operation -/

/-- What an operation leaves of a salted entry. -/
structure Entry.SaltStep (skips : Prop) [Decidable skips] (e e' : Entry) : Prop where
  valid : e'.Valid
  key : e'.sequenceKey = e.sequenceKey
  salted : e'.Salted
  salt : e'.salt = if skips then numI 0 else e.salt

section

variable {crypto : Crypto} {cfg : Cfg} {e e' : Entry} {skips : Prop} [Decidable skips]

theorem Entry.SaltStep.of_counter (hv : e'.Valid) (hkey : e'.sequenceKey = e.sequenceKey)
    (hcounter : e'.counter = e.counter) (hsalted : e'.Salted) (hskips : ¬ skips) :
    e.SaltStep skips e' := by
  refine ⟨hv, hkey, hsalted, ?_⟩
  rw [if_neg hskips, Entry.salt, hcounter]
  rfl

/-- One more passcode: the number stays in its part of the counter. -/
theorem Entry.SaltStep.increment (hv : e.Valid) (hallowed : e.Allowed cfg) (hsalted : e.Salted)
    (hskips : ¬ skips) : e.SaltStep skips { e with counter := numAdd e.counter (numI 1) } := by
  refine ⟨hv.setCounter _, rfl, hsalted, ?_⟩
  rw [if_neg hskips]
  have hlt : e.justCounter.toNat + 0 < e.maxCode := by
    rw [Nat.add_zero]
    exact hallowed.range.2
  have hnext := (Advanced.refl e).succ hallowed.range hlt
  exact hnext.salt hsalted

/-- A number that was skipped to is the whole counter. -/
theorem Entry.SaltStep.skip {skipTo : Num} (hv : e.Valid) (hsalted : e.Salted)
    (hlt : skipTo.toNat < e.maxCode) (hskips : skips) :
    e.SaltStep skips { e with counter := skipTo } := by
  refine ⟨hv.setCounter _, rfl, hsalted, ?_⟩
  rw [if_pos hskips]
  refine Num.ext_toNat ?_
  have hmax := maxCode_lt hsalted
  have hzero : (numI 0).toNat = 0 := rfl
  rw [Entry.salt, toNat_and_saltMask, hzero, Nat.div_eq_of_lt (Nat.lt_trans hlt hmax),
    Nat.zero_mul]

/-- Clearing other flags. -/
theorem and_not_and_flagSalted {flags cleared : Word32} (h : cleared &&& flagSalted = 0) :
    (flags &&& ~~~cleared) &&& flagSalted = flags &&& flagSalted := by
  have hnot : flagSalted = ~~~cleared &&& flagSalted := by
    ext i hi
    have hbit : (cleared &&& flagSalted).getLsbD i = false := by
      rw [h]
      exact BitVec.getLsbD_zero
    rw [BitVec.getLsbD_and] at hbit
    rw [BitVec.getElem_and, BitVec.getElem_not, ← BitVec.getLsbD_eq_getElem hi,
      ← BitVec.getLsbD_eq_getElem hi]
    cases hf : flagSalted.getLsbD i with
    | false => rw [Bool.and_false]
    | true =>
      rw [hf, Bool.and_true] at hbit
      rw [hbit]
      rfl
  rw [BitVec.and_assoc, ← hnot]

/-- A setter leaves the counter. -/
theorem Request.Changes.saltStep {req : Request} {s s' : State} (h : req.Changes cfg s s')
    (hv : s.entry.Valid) (hsalted : s.entry.Salted)
    (hclear : req.type = .flagClear → req.int &&& flagSalted = 0)
    (hset : req.type = .setInt → PppField.ofNum req.int = .flags → req.int2 &&& flagSalted ≠ 0)
    (hskips : ¬ skips) : s.entry.SaltStep skips s'.entry := by
  have hflags : s.flags &&& flagSalted ≠ 0 := hsalted
  have hvalid := h.valid hv
  cases h with
  | flagAdd htype hle =>
    refine .of_counter hvalid rfl rfl ?_ hskips
    change (s.flags ||| req.int) &&& flagSalted ≠ 0
    rw [BitVec.and_or_distrib_right]
    exact fun hzero => hflags (BitVec.or_eq_zero_iff.mp hzero).1
  | flagClear htype hle =>
    refine .of_counter hvalid rfl rfl ?_ hskips
    change (s.flags &&& ~~~req.int) &&& flagSalted ≠ 0
    rwa [and_not_and_flagSalted (hclear htype)]
  | flags htype hfield hle hok => exact .of_counter hvalid rfl rfl (hset htype hfield) hskips
  | _ => exact .of_counter hvalid rfl rfl hsalted hskips

/-- What a successful operation does to the database of `u`. -/
inductive SaltOp.End (cfg : Cfg) (u : CString) (skips : Prop) [Decidable skips] (w w' : World) :
    Prop where
  | kept (hw : w'.Keeps w) (hskips : ¬ skips)
  | replaced (e e' : Entry) (h : Replaced cfg u e e' w w')
      (hstep : e.Valid → e.Salted → e.SaltStep skips e')

/-- An operation on a state of its own does not touch the counter. -/
theorem SaltOp.update_end {named : Bool} {u : CString} {me : Pid} {w : World}
    {change : State → SysM State} (hskips : ¬ skips)
    (hchange : ∀ s uid ok, Meets cfg uid true ok Sys.Calm (fun s' => s'.username = s.username ∧
      s'.sequenceKey = s.sequenceKey ∧ s'.counter = s.counter ∧ s'.flags = s.flags ∧
      (s.entry.Valid → s'.entry.Valid)) (change s))
    (hok : ((pppUpdate cfg (namePtr named u) change).run (Sys.exec me) w).1 = some 0) :
    SaltOp.End cfg u skips w ((pppUpdate cfg (namePtr named u) change).run (Sys.exec me) w).2 := by
  have hspec := pppUpdate_spec me cfg named u change (fun e e' => e'.sequenceKey = e.sequenceKey ∧
    e'.counter = e.counter ∧ e'.flags = e.flags ∧ (e.Valid → e'.Valid)) hchange w
  rcases hspec with ⟨-, hne⟩ | ⟨e, e', ⟨hkey, hcounter, hflags, hvalid⟩, hreplaced, -⟩
  · exact absurd hok hne
  · refine .replaced e e' hreplaced fun hv hsalted => ?_
    refine .of_counter (hvalid hv) hkey hcounter ?_ hskips
    unfold Entry.Salted
    rwa [hflags]

end

section

variable {crypto : Crypto} {cfg : Cfg} {u : CString} {w : World}

theorem Request.Sets.not_skip {privileged : Bool} {req : Request} {s s' : State} {ret : ℕ}
    (h : req.Sets cfg privileged s ret s') : req.type ≠ .skip := by
  intro hskip
  unfold Request.Sets at h
  rw [hskip] at h
  exact h

/-- A request that is answered with success. -/
theorem SaltOp.request_end {me : Pid} {a : Agent} {req : Request} (hok : a.Ok)
    (hu : a.username = u) (hkeeps : (SaltOp.request me a req).KeepsKey)
    (hreply : RepliesOk crypto cfg me a w req) :
    SaltOp.End cfg u (req.type = .skip) w (handled crypto cfg me a w req).2 := by
  obtain ⟨hstore, hremove, hclear, hset⟩ := hkeeps
  obtain ⟨a', w', hrun, hanswer⟩ := hreply
  obtain rfl := hu
  have hhandling : Handling crypto cfg me a w req (some (0, a')) w' := by
    have h := @requestHandle_effect crypto cfg me a req w hok
    unfold wp at h
    unfold handled at hrun
    rwa [hrun] at h
  rw [hrun]
  simp only
  rcases hhandling with ⟨-, hr⟩ | ⟨-, -, heffect⟩
  · exact absurd hanswer (hr _ _ rfl).1
  -- only a setter, a counter operation or clearing writes an entry
  cases heffect with
  | refused hw hr => exact absurd hanswer (hr _ _ rfl).1
  | read hro hw =>
    refine .kept hw fun hskip => ?_
    unfold Request.ReadOnly at hro
    rw [hskip] at hro
    exact absurd hro (by decide)
  | dropped hwhy hw hr =>
    refine .kept hw fun hskip => ?_
    refine (hr _ _ rfl).1 ?_ hanswer
    rw [hskip]
    decide
  | switched htype hw => exact .kept hw fun hskip => nomatch htype.symm.trans hskip
  | created htype hs hw => exact .kept hw fun hskip => nomatch htype.symm.trans hskip
  | loaded htype hs s e hfresh hlook hw =>
    exact .kept hw fun hskip => nomatch htype.symm.trans hskip
  | put htype => exact absurd htype hstore
  | generated htype s pool hs hcheck hw =>
    exact .kept hw fun hskip => nomatch htype.symm.trans hskip
  | removed htype => exact absurd htype hremove
  | changed s s' ret hnew hs hsets hb hw => exact .kept hw hsets.not_skip
  | unset s s' lock e ret hnew hfresh hlook hsets hb hw hr =>
    exact absurd hanswer (hr _ _ rfl).1
  | set s s' lock e hnew hfresh hsets hb h =>
    refine .replaced e s'.entry h fun hv hsalted => ?_
    rw [← loaded_entry s lock e] at hv hsalted
    -- a setter keeps the counter of the key in use, and the salt with it
    have hstep := hsets.changes.saltStep hv hsalted hclear hset hsets.not_skip
    rwa [loaded_entry] at hstep
  | tried htype s hs hw hr => exact absurd hanswer (hr _ _ rfl).1
  | counted htype s hs e hnew hallowed hskip h =>
    refine .replaced e _ h fun hv hsalted => ?_
    by_cases hreq : req.type = .skip
    · have hcounter : req.counter e.counter = req.num := if_pos hreq
      rw [hcounter]
      exact .skip hv hsalted (hskip hreq) hreq
    · have hcounter : req.counter e.counter = numAdd e.counter (numI 1) := if_neg hreq
      rw [hcounter]
      exact .increment hv hallowed hsalted hreq
  | cleared htype e h =>
    refine .replaced e _ h fun hv hsalted => ?_
    exact .of_counter ⟨hv.1, hv.2, hv.3, hv.4, hv.5⟩ rfl rfl hsalted
      fun hskip => nomatch htype.symm.trans hskip

/-- What one successful operation does. -/
theorem SaltOp.step {op : SaltOp} (hfor : op.For u) (hkeeps : op.KeepsKey)
    (hok : op.Succeeds crypto cfg w) : SaltOp.End cfg u op.Skips w (op.exec crypto cfg w) := by
  cases op with
  | counter x =>
    obtain ⟨me, mem, skipTo⟩ := x
    obtain rfl := hfor.username
    obtain ⟨s', hrun⟩ := hok
    cases skipTo with
    | none =>
      cases pppIncrement_spec me cfg mem hfor.codeMask w with
      | kept hw hr => exact absurd hrun (hr s')
      | replaced fd e hallowed h hr =>
        exact .replaced e _ h fun hv hsalted => .increment hv hallowed hsalted fun h => h rfl
    | some skipTo =>
      cases pppSkip_spec me cfg mem skipTo hfor.saltMask hfor.codeMask w with
      | kept hw hr => exact absurd hrun (hr s')
      | replaced fd e hguard h hr =>
        exact .replaced e _ h fun hv hsalted => .skip hv hsalted hguard.2 fun h => nomatch h
  | failures me s zero =>
    obtain rfl : s.username = u := hfor
    refine update_end id (fun s uid ok => ?_) hok
    cases zero with
    | true => exact ⟨rfl, rfl, rfl, rfl, fun hv => ⟨hv.1, hv.2, hv.3, hv.4, hv.5⟩⟩
    | false => exact ⟨rfl, rfl, rfl, rfl, fun hv => ⟨hv.1, hv.2, hv.3, hv.4, hv.5⟩⟩
  | oobTime me s =>
    obtain rfl : s.username = u := hfor
    refine update_end id (fun s uid ok => ?_) hok
    refine ⟨⟨trivial, id⟩, fun x _ => ?_⟩
    exact ⟨rfl, rfl, rfl, rfl, fun hv => ⟨hv.1, hv.2, hv.3, hv.4, hv.5⟩⟩
  | request me a req => exact request_end hfor.1 hfor.2 hkeeps hok

end

/-! ## Runs -/

section

variable (crypto : Crypto) (cfg : Cfg)

/-- The world after a sequence of operations. -/
def runSaltOps : List SaltOp → World → World
  | [], w => w
  | op :: ops, w => runSaltOps ops (op.exec crypto cfg w)

def Successful : List SaltOp → World → Prop
  | [], _ => True
  | op :: ops, w => op.Succeeds crypto cfg w ∧ Successful ops (op.exec crypto cfg w)

/-- The entries have the same passcodes, as far as they are of the same form. -/
def Entry.SameCodes (e e' : Entry) : Prop :=
  e'.alphabet = e.alphabet → e'.codeLength = e.codeLength →
    ∀ (s : State) (fd : ℤ) (n : Num), s.saltMask = saltMask →
      passcodeOf crypto cfg (s.loaded fd e') (pppAddSalt (s.loaded fd e') n) =
        passcodeOf crypto cfg (s.loaded fd e) (pppAddSalt (s.loaded fd e) n)

/-- Salt constancy in a run that starts with the entry `e`. -/
def SaltConstant (u : CString) (e : Entry) (ops : List SaltOp) (w : World) : Prop :=
  ∀ n ≤ ops.length, ∀ e',
    dbLookup ((runSaltOps crypto cfg (ops.take n) w).file (dbLoc cfg u)) u = some e' →
      e'.Salted ∧ e'.salt = e.salt ∧ e.SameCodes crypto cfg e'

end

/-- What is left of the salted entry `e`. -/
structure Entry.KeptSalt (e e' : Entry) : Prop where
  key : e'.sequenceKey = e.sequenceKey
  salted : e'.Salted
  salt : e'.salt = e.salt

section

variable {crypto : Crypto} {cfg : Cfg} {u : CString} {e e' : Entry}

/-- A passcode depends on its number, the key and the salt. -/
theorem Entry.KeptSalt.sameCodes (h : e.KeptSalt e') (hsalted : e.Salted) :
    e.SameCodes crypto cfg e' := by
  intro halphabet hlength s fd n hmask
  have hflags : e.flags &&& flagSalted ≠ 0 := hsalted
  have hflags' : e'.flags &&& flagSalted ≠ 0 := h.salted
  have hsalt : numAnd e'.counter saltMask = numAnd e.counter saltMask := h.salt
  have hadd : pppAddSalt (s.loaded fd e') n = pppAddSalt (s.loaded fd e) n := by
    rw [pppAddSalt, pppAddSalt, loaded_flags, loaded_flags, if_pos hflags, if_pos hflags']
    simp only [loaded_counter, loaded_saltMask, loaded_codeMask, hmask, hsalt]
  have hkey (e : Entry) : (s.loaded fd e).sequenceKey = e.sequenceKey := rfl
  have halpha (e : Entry) : (s.loaded fd e).alphabet = e.alphabet := rfl
  have hlen (e : Entry) : (s.loaded fd e).codeLength = e.codeLength := rfl
  rw [hadd, passcodeOf, passcodeOf, hkey, hkey, halpha, halpha, hlen, hlen, h.key, halphabet,
    hlength]

variable {skips : Prop} [Decidable skips] {w w' : World}

/-- A skip is harmless if there is no salt to lose. -/
theorem Entry.KeptSalt.step (h : e.KeptSalt e') (hskips : e.salt = numI 0 ∨ ¬ skips) {x : Entry}
    (hx : e'.SaltStep skips x) : e.KeptSalt x := by
  refine ⟨hx.key.trans h.key, hx.salted, ?_⟩
  rw [hx.salt]
  split_ifs with hskip
  · exact (hskips.resolve_right (not_not.mpr hskip)).symm
  · exact h.salt

/-- One operation, whatever the file looks like. -/
theorem SaltOp.End.keptSalt (hend : SaltOp.End cfg u skips w w')
    (hskips : e.salt = numI 0 ∨ ¬ skips)
    (h : ∀ x, dbLookup (w.file (dbLoc cfg u)) u = some x → e.KeptSalt x) :
    ∀ x, dbLookup (w'.file (dbLoc cfg u)) u = some x → e.KeptSalt x := by
  intro x hx
  cases hend with
  | kept hw _ =>
    rw [hw.file] at hx
    exact h x hx
  | replaced e₀ e' hreplaced hstep =>
    have hkept := h e₀ hreplaced.before
    have hstep := hstep (dbLookup_valid hreplaced.before) hkept.salted
    obtain rfl := hreplaced.lookup hstep.valid hx
    exact hkept.step hskips hstep

/-- One operation on a database that has the entry. -/
theorem SaltOp.End.present (hend : SaltOp.End cfg u skips w w') (hp : Present cfg u w)
    (he : dbLookup (w.file (dbLoc cfg u)) u = some e) (hsalted : e.Salted) :
    Present cfg u w' ∧
      ∃ e', dbLookup (w'.file (dbLoc cfg u)) u = some e' ∧ e.SaltStep skips e' := by
  cases hend with
  | kept hw hskips =>
    refine ⟨hp.keeps hw, e, ?_, .of_counter (dbLookup_valid he) rfl rfl hsalted hskips⟩
    rwa [hw.file]
  | replaced e₀ e' hreplaced hstep =>
    obtain rfl : e₀ = e := Option.some.inj (hreplaced.before.symm.trans he)
    have hstep := hstep (dbLookup_valid he) hsalted
    have hp' := hreplaced.present hstep.valid hp
    obtain ⟨x, hx⟩ := hp'.found
    obtain rfl := hreplaced.lookup hstep.valid hx
    exact ⟨hp', x, hx, hstep⟩

variable {ops : List SaltOp}

/-- A run keeps what is left of the entry, by induction on the operations. -/
theorem keptSalt_run (hfor : ∀ op ∈ ops, op.For u) (hkeeps : ∀ op ∈ ops, op.KeepsKey)
    (hok : Successful crypto cfg ops w) (hskips : e.salt = numI 0 ∨ ∀ op ∈ ops, ¬ op.Skips)
    (h : ∀ x, dbLookup (w.file (dbLoc cfg u)) u = some x → e.KeptSalt x) (n : ℕ) :
    ∀ x, dbLookup ((runSaltOps crypto cfg (ops.take n) w).file (dbLoc cfg u)) u = some x →
      e.KeptSalt x := by
  induction ops generalizing w n with
  | nil =>
    rw [List.take_nil]
    exact h
  | cons op ops ih =>
    cases n with
    | zero => exact h
    | succ n =>
      have hend := SaltOp.step (hfor op List.mem_cons_self) (hkeeps op List.mem_cons_self) hok.1
      rw [List.take_succ_cons]
      refine ih (fun x hx => hfor x (List.mem_cons_of_mem op hx))
        (fun x hx => hkeeps x (List.mem_cons_of_mem op hx)) hok.2
        (hskips.imp_right fun h x hx => h x (List.mem_cons_of_mem op hx)) ?_ n
      exact hend.keptSalt (hskips.imp_right fun h => h op List.mem_cons_self) h

/-- The first skip shows that there was no salt. -/
theorem salt_of_saltConstant (hfor : ∀ op ∈ ops, op.For u) (hkeeps : ∀ op ∈ ops, op.KeepsKey)
    (hok : Successful crypto cfg ops w) (hp : Present cfg u w)
    (he : dbLookup (w.file (dbLoc cfg u)) u = some e) (hsalted : e.Salted)
    (h : ∀ n ≤ ops.length, ∀ e',
      dbLookup ((runSaltOps crypto cfg (ops.take n) w).file (dbLoc cfg u)) u = some e' →
        e'.salt = e.salt) :
    e.salt = numI 0 ∨ ∀ op ∈ ops, ¬ op.Skips := by
  induction ops generalizing w e with
  | nil => exact .inr fun op hop => absurd hop List.not_mem_nil
  | cons op ops ih =>
    have hend := SaltOp.step (hfor op List.mem_cons_self) (hkeeps op List.mem_cons_self) hok.1
    obtain ⟨hp', e', he', hstep⟩ := hend.present hp he hsalted
    have hsalt : e'.salt = e.salt := by
      refine h 1 (by rw [List.length_cons]; omega) e' ?_
      exact he'
    have hrest := ih (fun x hx => hfor x (List.mem_cons_of_mem op hx))
      (fun x hx => hkeeps x (List.mem_cons_of_mem op hx)) hok.2 hp' he' hstep.salted ?_
    · by_cases hskip : op.Skips
      · refine .inl ?_
        rw [← hsalt, hstep.salt, if_pos hskip]
      · rw [hsalt] at hrest
        refine hrest.imp_right fun hrest x hx => ?_
        rcases List.mem_cons.mp hx with rfl | hx
        · exact hskip
        · exact hrest x hx
    · intro n hn x hx
      rw [hsalt]
      refine h (n + 1) (by rw [List.length_cons]; omega) x ?_
      rw [List.take_succ_cons]
      exact hx

end

/-- The salt is constant in a run exactly if the run does not skip, or if there
is no salt. Only for the way back the entry must be found after each store. -/
theorem saltConstant_iff (crypto : Crypto) (cfg : Cfg) (u : CString) (w : World) (e : Entry)
    (ops : List SaltOp) (he : dbLookup (w.file (dbLoc cfg u)) u = some e) (hsalted : e.Salted)
    (hfor : ∀ op ∈ ops, op.For u) (hkeeps : ∀ op ∈ ops, op.KeepsKey)
    (hok : Successful crypto cfg ops w) :
    ((e.salt = numI 0 ∨ ∀ op ∈ ops, ¬ op.Skips) → SaltConstant crypto cfg u e ops w) ∧
      (Present cfg u w → SaltConstant crypto cfg u e ops w →
        e.salt = numI 0 ∨ ∀ op ∈ ops, ¬ op.Skips) := by
  constructor
  · intro hskips n _ e' he'
    have hstart : ∀ x, dbLookup (w.file (dbLoc cfg u)) u = some x → e.KeptSalt x := by
      intro x hx
      obtain rfl : e = x := Option.some.inj (he.symm.trans hx)
      exact ⟨rfl, hsalted, rfl⟩
    have hkept := keptSalt_run hfor hkeeps hok hskips hstart n e' he'
    exact ⟨hkept.salted, hkept.salt, hkept.sameCodes hsalted⟩
  · intro hp hconstant
    refine salt_of_saltConstant hfor hkeeps hok hp he hsalted fun n hn e' he' => ?_
    exact (hconstant n hn e' he').2.1

/-! ## A key with a salt -/

/-- The sixth passcode of a key is next. -/
def saltedAlice : State := aliceState.setCounter (numII 1 5)

def saltedAliceWorld : World :=
  World.boot (fun db => if db = .global then some (dbEntryText saltedAlice) else none)
    fun _ => .good

theorem saltedAlice_stored :
    dbLookup (saltedAliceWorld.file (dbLoc configRoot alice)) alice = some saltedAlice.entry := by
  decide +kernel

theorem saltedAlice_present : Present configRoot alice saltedAliceWorld :=
  ⟨⟨_, saltedAlice_stored⟩, .inl fun _ => rfl⟩

/-- One call of the library on the key. -/
def aliceCall (skipTo : Option Num) : SaltOp := .counter ⟨0, aliceState, skipTo⟩

theorem aliceCall_for (skipTo : Option Num) : (aliceCall skipTo).For alice :=
  (State.initial_fresh configRoot Outcome.good.junk alice).toFor

theorem aliceCall_succeeds {skipTo : Option Num}
    (h : ((CounterCall.exec configRoot ⟨0, aliceState, skipTo⟩ saltedAliceWorld).1.map Prod.fst) =
      some 0) : Successful plainCrypto configRoot [aliceCall skipTo] saltedAliceWorld := by
  refine ⟨?_, trivial⟩
  obtain ⟨⟨r, s'⟩, hr, h0⟩ := Option.map_eq_some_iff.mp h
  obtain rfl : r = 0 := h0
  exact ⟨s', hr⟩

theorem saltConstant_iff_increment :
    SaltConstant plainCrypto configRoot alice saltedAlice.entry [aliceCall none]
      saltedAliceWorld := by
  refine (saltConstant_iff plainCrypto configRoot alice saltedAliceWorld saltedAlice.entry
    [aliceCall none] saltedAlice_stored (by decide +kernel) ?_ ?_
    (aliceCall_succeeds (by decide +kernel))).1 (.inr ?_)
  · intro op hop
    obtain rfl := List.mem_singleton.mp hop
    exact aliceCall_for none
  · intro op hop
    obtain rfl := List.mem_singleton.mp hop
    trivial
  · intro op hop
    obtain rfl := List.mem_singleton.mp hop
    exact fun h => h rfl

/-- Skipping ahead, to a number that the key still has, loses the salt. -/
theorem skip_loses_salt :
    ¬ ∀ (crypto : Crypto) (cfg : Cfg) (u : CString) (w : World) (e : Entry) (ops : List SaltOp),
      dbLookup (w.file (dbLoc cfg u)) u = some e → e.Salted → (∀ op ∈ ops, op.For u) →
        (∀ op ∈ ops, op.KeepsKey) → Successful crypto cfg ops w → Present cfg u w →
        SaltConstant crypto cfg u e ops w := by
  intro h
  have hlaw := h plainCrypto configRoot alice saltedAliceWorld saltedAlice.entry
    [aliceCall (some (numI 7))] saltedAlice_stored (by decide +kernel)
    (fun op hop => List.mem_singleton.mp hop ▸ aliceCall_for _)
    (fun op hop => List.mem_singleton.mp hop ▸ trivial)
    (aliceCall_succeeds (by decide +kernel)) saltedAlice_present
  have hzero : (dbLookup ((runSaltOps plainCrypto configRoot ([aliceCall (some (numI 7))].take 1)
      saltedAliceWorld).file (dbLoc configRoot alice)) alice).map Entry.salt = some (numI 0) := by
    decide +kernel
  obtain ⟨e', he', hsalt⟩ := Option.map_eq_some_iff.mp hzero
  have hkept := (hlaw 1 (by decide) e' he').2.1
  rw [hsalt] at hkept
  exact absurd hkept (by decide +kernel)

end Otpasswd
