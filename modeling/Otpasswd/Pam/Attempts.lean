import Otpasswd.Pam.History

/-!
# Otpasswd.Pam.Attempts — the loop over the attempts

The loop of `pam_sm_authenticate` is driven by four variables. `AuthInv` ties
them to the history: how often it failed, which counters a response was
compared with, and that the passcode which is asked for was reserved by a
`ppp_increment` of the same call.

Main results: `authTry_spec` and `authLoop_spec`.
-/

namespace Otpasswd

open CText Prog

/-! ## The loop -/

/-- The bounds on the history, at any point of a call. -/
structure Bounded (cfg : Config) (tr : PamHistory) : Prop where
  failed : (failedAttempts tr : ℤ) ≤ authLimit cfg
  once : cfg.pamRetry ≤ 1 → (compared tr).Nodup

/-- What holds of the loop at any point of an iteration. -/
structure AuthBase (cfg : Config) (u : CString) (s : State) (n : ℕ) (w : PamWorld)
    (tr : PamHistory) : Prop extends Bounded cfg tr where
  user : s.For u
  tries : failedAttempts tr = n
  count : (compared tr).length ≤ n
  spent : ∀ n ∈ compared tr, Spent cfg.toCfg u n w.lib

/-- The state in memory holds a passcode that was reserved. -/
def Holding (cfg : Config) (u : CString) (s : State) (w : PamWorld) (tr : PamHistory) : Prop :=
  ∃ e, s.entry = e ∧ Reserved cfg.toCfg u s e tr ∧ Spent cfg.toCfg u e.counter w.lib

/-- What the variables mean at the head of an iteration. -/
structure AuthInv (cfg : Config) (u : CString) (l : Auth) (w : PamWorld) (tr : PamHistory) :
    Prop extends AuthBase cfg u l.s l.tries w tr where
  retval : l.tries = 0 ∨ l.retval = .authErr
  first : l.firstTry = true → l.dontIncrement = false
  holding : l.firstTry = false → Holding cfg u l.s w tr
  waiting : l.dontIncrement = true → cfg.pamRetry = 1 → l.s.counter ∉ compared tr

/-- What they mean when the question for the passcode is asked. -/
structure AuthAsks (cfg : Config) (u : CString) (l : Auth) (w : PamWorld) (tr : PamHistory) :
    Prop extends AuthBase cfg u l.s l.tries w tr where
  within : (l.tries : ℤ) < authLimit cfg
  retval : l.retval = .authErr
  firstTry : l.firstTry = false
  cleared : cfg.pamRetry = 1 → l.dontIncrement = false
  holding : Holding cfg u l.s w tr
  fresh : cfg.pamRetry ≤ 1 → l.s.counter ∉ compared tr

/-- How the loop may end. -/
structure AuthDone (crypto : Crypto) (cfg : Config) (u : CString) (r : Option (PamCode × State))
    (w : PamWorld) (tr : PamHistory) : Prop extends Bounded cfg tr where
  success : ∀ s', r = some (.success, s') → ∃ s e resp, Reserved cfg.toCfg u s e tr ∧
    (responses tr).getLast? = some (some resp) ∧
    resp.val = passcodeOf crypto cfg.toCfg s e.counter ∧ Spent cfg.toCfg u e.counter w.lib

section

variable {crypto : Crypto} {cfg : Config} {me : Pid} {u : CString} {w w' : PamWorld}
  {tr tr' : PamHistory} {l : Auth}

theorem Bounded.since (h : Bounded cfg tr) (hsince : Since cfg.toCfg u w tr w' tr') :
    Bounded cfg tr' := by
  constructor
  · rw [hsince.failed]
    exact h.failed
  · rw [hsince.compared]
    exact h.once

theorem AuthBase.since {s : State} {n : ℕ} (h : AuthBase cfg u s n w tr)
    (hsince : Since cfg.toCfg u w tr w' tr') : AuthBase cfg u s n w' tr' where
  toBounded := h.toBounded.since hsince
  user := h.user
  tries := hsince.failed.trans h.tries
  count := by
    rw [hsince.compared]
    exact h.count
  spent := by
    rw [hsince.compared]
    exact fun n hn => hsince.spent n (h.spent n hn)

theorem Holding.since {s : State} (h : Holding cfg u s w tr)
    (hsince : Since cfg.toCfg u w tr w' tr') : Holding cfg u s w' tr' := by
  obtain ⟨e, he, hreserved, hspent⟩ := h
  exact ⟨e, he, hreserved.since hsince, hsince.spent _ hspent⟩

theorem AuthInv.since (h : AuthInv cfg u l w tr) (hsince : Since cfg.toCfg u w tr w' tr') :
    AuthInv cfg u l w' tr' where
  toAuthBase := h.toAuthBase.since hsince
  retval := h.retval
  first := h.first
  holding hfirst := (h.holding hfirst).since hsince
  waiting hdont := by
    rw [hsince.compared]
    exact h.waiting hdont

theorem AuthAsks.since (h : AuthAsks cfg u l w tr) (hsince : Since cfg.toCfg u w tr w' tr') :
    AuthAsks cfg u l w' tr' where
  toAuthBase := h.toAuthBase.since hsince
  within := h.within
  retval := h.retval
  firstTry := h.firstTry
  cleared := h.cleared
  holding := h.holding.since hsince
  fresh hretry := by
    rw [hsince.compared]
    exact h.fresh hretry

/-- A loop that ends without success. -/
theorem Bounded.done (h : Bounded cfg tr) {r : Option (PamCode × State)}
    (hr : ∀ s, r ≠ some (.success, s)) : AuthDone crypto cfg u r w tr :=
  ⟨h, fun s' hs' => absurd hs' (hr s')⟩

/-! ### Parts of an iteration -/

/-- What a part of an iteration leaves. -/
def PartEnd (crypto : Crypto) (cfg : Config) (u : CString)
    (P : Auth → PamWorld → PamHistory → Prop) (r : Option AuthEnd) (w : PamWorld)
    (tr : PamHistory) : Prop :=
  match r with
  | some (.next l) => P l w tr
  | some (.exit retval s) => AuthDone crypto cfg u (some (retval, s)) w tr
  | none => Bounded cfg tr

theorem wpPam_part {p : PamM AuthEnd} {f : Auth → PamM (PamCode × State)}
    {P : Auth → PamWorld → PamHistory → Prop}
    (hp : wpPam crypto cfg.toCfg me p (PartEnd crypto cfg u P) w tr)
    (hf : ∀ l w tr, P l w tr →
      wpPam crypto cfg.toCfg me (f l) (AuthDone crypto cfg u) w tr) :
    wpPam crypto cfg.toCfg me (p >>= fun e => e.andThen f) (AuthDone crypto cfg u) w tr := by
  refine wpOver_seq hp (fun w' tr' h => h.done (by simp)) fun e w' tr' h => ?_
  cases e with
  | exit retval s => exact h
  | next l => exact hf l w' tr' h

theorem Holding.setPrompt {s : State} (h : Holding cfg u s w tr) (prompt : Option (List Char)) :
    Holding cfg u (s.setPrompt prompt) w tr := by
  obtain ⟨e, he, ⟨s0, w0, s1, w1, p, hmem, hreplaced, hs1, rfl⟩, hspent⟩ := h
  exact ⟨e, he, ⟨s0, w0, s1, w1, prompt, hmem, hreplaced, hs1, rfl⟩, hspent⟩

/-- `ph_increment` leaves a passcode that no number used before can be of. -/
theorem phIncrement_spec {s : State} (hs : s.For u) :
    wpPam crypto cfg.toCfg me (phIncrement cfg s)
      (fun r w' tr' => Since cfg.toCfg u w tr w' tr' ∧ ∀ s', r = some (.success, s') →
        s'.For u ∧ Holding cfg u s' w' tr' ∧
          ∀ n, Spent cfg.toCfg u n w.lib → n ≠ s'.counter) w tr := by
  refine wpOver_call (impl_increment hs) (fun w' h => ?_) fun x w' h => ?_
  · exact ⟨⟨h.1, ⟨[], by simp⟩, rfl, rfl, rfl⟩, by simp⟩
  obtain ⟨ret, s'⟩ := x
  have hsince : Since cfg.toCfg u w tr w'
      (tr ++ [(⟨.increment s, w, (ret, s'), w'⟩ : PamMade)]) := .snoc _ h.1 rfl rfl rfl
  have hverdict := @phVerdict_quiet cfg u s' ret
  refine wpOver_mono (wpPam_quiet hverdict) fun r w'' tr'' hr => ?_
  refine ⟨hsince.trans hr.1, fun s'' hs'' => ?_⟩
  obtain ⟨rfl, hret⟩ := hr.2 _ hs''
  obtain rfl := hret rfl
  obtain ⟨e, hreplaced, he, hfor, hspent⟩ := h.2 s'' rfl
  refine ⟨hfor, ?_, fun n hn hcounter => ?_⟩
  · -- the event itself is the reservation
    have hreserved : Reserved cfg.toCfg u s'' e
        (tr ++ [(⟨.increment s, w, (0, s''), w'⟩ : PamMade)]) :=
      ⟨s, w, s'', w', s''.prompt, by simp, hreplaced, he, rfl⟩
    exact ⟨e, he, hreserved.since hr.1, hr.1.spent _ hspent⟩
  · -- a number that is used up is below the counter that was stored
    have hlt := hn.lookup e hreplaced.before
    have hcount : s''.counter = e.counter := congrArg Entry.counter he
    rw [hcounter, hcount] at hlt
    exact absurd hlt (lt_irrefl _)

/-- The next passcode is one that no response was compared with. -/
theorem authPasscode_spec (hretry : 0 ≤ cfg.pamRetry) (h : AuthInv cfg u l w tr)
    (hlt : (l.tries : ℤ) < authLimit cfg) :
    wpPam crypto cfg.toCfg me (authPasscode cfg l)
      (PartEnd crypto cfg u fun l' w' tr' => AuthAsks cfg u { l' with retval := .authErr } w' tr')
      w tr := by
  unfold authPasscode
  by_cases hnew : l.firstTry = true ∨ cfg.pamRetry = 1
  · rw [if_pos hnew]
    simp only
    by_cases hdont : l.dontIncrement = true
    · -- the passcode that was asked for is still to be answered
      rw [if_pos hdont]
      have hfirst : l.firstTry = false := by
        by_contra hfirst
        rw [h.first (Bool.eq_true_of_not_eq_false hfirst)] at hdont
        cases hdont
      have hone : cfg.pamRetry = 1 := hnew.resolve_left (by rw [hfirst]; decide)
      exact ⟨h.toAuthBase, hlt, rfl, rfl, fun _ => rfl, h.holding hfirst,
        fun _ => h.waiting hdont hone⟩
    rw [if_neg hdont]
    -- a new passcode is reserved, and its prompt is built
    refine wpOver_seq (phIncrement_spec h.user) (fun w' tr' hr => h.toBounded.since hr.1) ?_
    rintro ⟨retval, s⟩ w' tr' ⟨hsince, hs⟩
    have hinv := h.toAuthBase.since hsince
    by_cases hfail : retval ≠ .success
    · simp only
      rw [if_pos hfail]
      exact hinv.toBounded.done fun s' hs' => hfail (Prod.mk.inj (Option.some.inj hs')).1
    obtain rfl := not_not.mp hfail
    obtain ⟨hfor, hholding, hfresh⟩ := hs s rfl
    simp only
    rw [if_neg hfail]
    have hkeeps : Pam.KeepsCounter u (.getPrompt s) := trivial
    refine wpPam_call hkeeps (fun w'' _ => hinv.toBounded) fun x w'' hspent htold => ?_
    obtain ⟨text, s'⟩ := x
    obtain ⟨prompt, hs'⟩ := htold
    replace hs' : s' = s.setPrompt prompt := hs'
    have hsince' : Since cfg.toCfg u w' tr' w''
        (tr' ++ [(⟨.getPrompt s, w', (text, s'), w''⟩ : PamMade)]) := .snoc _ hspent rfl rfl rfl
    cases text with
    | null => exact (hinv.toBounded.since hsince').done (by simp)
    | key => exact (hinv.toBounded.since hsince').done (by simp)
    | text t =>
      have hbase := hinv.since hsince'
      have hasks : AuthAsks cfg u { l with
          s := s.setPrompt prompt
          prompt := t
          firstTry := false
          retval := .authErr } w'' (tr' ++ [⟨.getPrompt s, w', (.text t, s'), w''⟩]) := by
        refine ⟨⟨hbase.toBounded, ⟨hfor.username, hfor.saltMask, hfor.codeMask⟩, hbase.tries,
          hbase.count, hbase.spent⟩, hlt, rfl, rfl, fun _ => Bool.eq_false_of_not_eq_true hdont,
          (hholding.since hsince').setPrompt prompt, fun _ hmem => ?_⟩
        rw [hsince'.compared, hsince.compared] at hmem
        exact hfresh _ (h.spent _ hmem) rfl
      subst hs'
      exact hasks
  · rw [if_neg hnew]
    obtain ⟨hfirst, hone⟩ := not_or.mp hnew
    have hfirst : l.firstTry = false := Bool.eq_false_of_not_eq_true hfirst
    refine ⟨h.toAuthBase, hlt, rfl, hfirst, fun h1 => absurd h1 hone, h.holding hfirst,
      fun hle hmem => ?_⟩
    -- without a retry nothing was compared yet
    have hlimit : authLimit cfg = 1 := by rw [authLimit, if_pos (by omega)]
    have hcount := h.count
    have hnil : compared tr = [] := List.eq_nil_of_length_eq_zero (by omega)
    replace hmem : l.s.counter ∈ compared tr := hmem
    rw [hnil] at hmem
    cases hmem

theorem authBegin_spec (hretry : 0 ≤ cfg.pamRetry) (hlimit : 0 < authLimit cfg)
    (h : AuthInv cfg u l w tr) :
    wpPam crypto cfg.toCfg me (authBegin cfg l) (PartEnd crypto cfg u (AuthAsks cfg u)) w tr := by
  unfold authBegin
  by_cases hlt : (l.tries : ℤ) < authLimit cfg
  · rw [if_pos hlt]
    refine wpOver_seq (authPasscode_spec hretry h hlt) (fun w' tr' h => h) fun e w' tr' h => ?_
    cases e with
    | exit retval s => exact h
    | next l' =>
      replace h : AuthAsks cfg u { l' with retval := .authErr } w' tr' := h
      simp only
      by_cases halways : cfg.pamOob = oobAlways
      · rw [if_pos halways]
        refine wpPam_quiet_seq (phOobSend_quiet h.user.username) (fun w'' tr'' hs => ?_)
          fun _ w'' tr'' hs _ => ?_
        · exact (h.since hs).toBounded
        · exact h.since hs
      · rw [if_neg halways]
        exact h
  · -- out of tries: the loop does not leave with success
    rw [if_neg hlt]
    refine h.toBounded.done fun s hs => ?_
    have hretval : l.retval = .success := (Prod.mk.inj (Option.some.inj hs)).1
    rcases h.retval with htries | herr
    · rw [htries] at hlt
      exact hlt hlimit
    · rw [hretval] at herr
      cases herr

/-- A question for the passcode takes a response and nothing else. -/
theorem AuthAsks.query (h : AuthAsks cfg u l w tr) (echo : Bool) (prompt : List Char)
    (answer : Option CString) (hw : KeepsSpent cfg.toCfg u w.lib w'.lib) :
    AuthAsks cfg u l w' (tr ++ [⟨.sys (.query echo prompt answer), w, ⟨⟩, w'⟩]) := by
  set ev : PamMade := ⟨.sys (.query echo prompt answer), w, ⟨⟩, w'⟩ with hev
  have hcompared : compared (tr ++ [ev]) = compared tr := by
    rw [compared_snoc, hev]
    simp [comparison]
  have hfailed : failedAttempts (tr ++ [ev]) = failedAttempts tr := by
    rw [failedAttempts_snoc, hev]
    simp [failedAttempt]
  refine ⟨⟨⟨?_, ?_⟩, h.user, ?_, ?_, ?_⟩, h.within, h.retval, h.firstTry, h.cleared, ?_, ?_⟩
  · rw [hfailed]
    exact h.failed
  · rw [hcompared]
    exact h.once
  · exact hfailed.trans h.tries
  · rw [hcompared]
    exact h.count
  · rw [hcompared]
    exact fun n hn => hw n (h.spent n hn)
  · obtain ⟨e, he, ⟨s0, w0, s1, w1, p, hmem, hrest⟩, hspent⟩ := h.holding
    exact ⟨e, he, ⟨s0, w0, s1, w1, p, List.mem_append_left _ hmem, hrest⟩, hw _ hspent⟩
  · rw [hcompared]
    exact h.fresh

/-- Back to the head of the loop with the passcode still to be answered. -/
theorem AuthAsks.again (h : AuthAsks cfg u l w tr) (oobSent : Bool) :
    AuthInv cfg u { l with dontIncrement := true, oobSent := oobSent } w tr where
  toAuthBase := h.toAuthBase
  retval := .inr h.retval
  first hfirst := by
    rw [h.firstTry] at hfirst
    cases hfirst
  holding _ := h.holding
  waiting _ hretry := h.fresh hretry.le

/-- A response that is compared with the passcode. -/
theorem AuthAsks.compare (h : AuthAsks cfg u l w tr) (resp : CString) (ret : ℕ)
    (hw : KeepsSpent cfg.toCfg u w.lib w'.lib) :
    let tr' := tr ++ [⟨.authenticate l.s resp, w, ret, w'⟩]
    Bounded cfg tr' ∧ responses tr' = responses tr ∧ Holding cfg u l.s w' tr' ∧
      (ret ≠ 0 → AuthBase cfg u l.s (l.tries + 1) w' tr') := by
  set ev : PamMade := ⟨.authenticate l.s resp, w, ret, w'⟩ with hev
  have hcompared : compared (tr ++ [ev]) = compared tr ++ [l.s.counter] := by
    rw [compared_snoc, hev]
    simp [comparison]
  have hfailed : failedAttempts (tr ++ [ev]) = failedAttempts tr + (decide (ret ≠ 0)).toNat := by
    rw [failedAttempts_snoc, hev]
    simp [failedAttempt]
  have hle : (decide (ret ≠ 0)).toNat ≤ 1 := Bool.toNat_le _
  have hwithin := h.within
  have htries := h.tries
  have hbounded : Bounded cfg (tr ++ [ev]) := by
    refine ⟨by omega, fun hretry => ?_⟩
    rw [hcompared]
    refine (h.once hretry).append (List.nodup_singleton _) fun n hn hn' => ?_
    rw [List.mem_singleton.mp hn'] at hn
    exact h.fresh hretry hn
  obtain ⟨e, he, ⟨s0, w0, s1, w1, p, hmem, hrest⟩, hspent⟩ := h.holding
  refine ⟨hbounded, ?_, ⟨e, he, ⟨s0, w0, s1, w1, p, List.mem_append_left _ hmem, hrest⟩,
    hw _ hspent⟩, fun hret => ⟨hbounded, h.user, ?_, ?_, fun n hn => ?_⟩⟩
  · rw [responses_snoc, hev]
    simp [response]
  · rw [hfailed, decide_eq_true hret]
    exact congrArg (· + 1) htries
  · rw [hcompared, List.length_append]
    exact Nat.add_le_add_right h.count 1
  · rw [hcompared] at hn
    rcases List.mem_append.mp hn with hn | hn
    · exact hw n (h.spent n hn)
    · rw [List.mem_singleton.mp hn]
      have hcounter : l.s.counter = e.counter := congrArg Entry.counter he
      rw [hcounter]
      exact hw _ hspent

theorem authTry_spec (h : AuthAsks cfg u l w tr) (resp : CString)
    (hlast : (responses tr).getLast? = some (some resp)) :
    wpPam crypto cfg.toCfg me (authTry l resp) (PartEnd crypto cfg u (AuthInv cfg u)) w tr := by
  have hkeeps : Pam.KeepsCounter u (.authenticate l.s resp) := trivial
  refine wpPam_call hkeeps (fun w' _ => h.toBounded) fun ret w' hw htold => ?_
  obtain ⟨hbounded, hresponses, hholding, hfailed⟩ := h.compare resp ret hw
  by_cases hret : ret = 0
  · -- the response is the passcode of the number that is held
    rw [if_pos hret]
    refine ⟨hbounded, fun s' hs' => ?_⟩
    obtain ⟨e, he, hreserved, hspent⟩ := hholding
    refine ⟨l.s, e, resp, hreserved, ?_, ?_, hspent⟩
    · exact (congrArg List.getLast? hresponses).trans hlast
    · have hpass : resp.val = passcodeOf crypto cfg.toCfg l.s (pppAddSalt l.s l.s.counter) :=
        htold hret
      rw [pppAddSalt_self l.s h.user.saltMask h.user.codeMask] at hpass
      rw [hpass, ← he]
      rfl
  · -- a failure is counted, and the loop goes on
    rw [if_neg hret]
    have hbase := hfailed hret
    have hkeeps : Pam.KeepsCounter u (.failures l.s false) := h.user.username
    refine wpPam_call hkeeps (fun w'' _ => hbounded) fun counted w'' hw' _ => ?_
    have hsince : Since cfg.toCfg u w' (tr ++ [⟨.authenticate l.s resp, w, ret, w'⟩]) w'' _ :=
      .snoc ⟨.failures l.s false, w', counted, w''⟩ hw' rfl rfl rfl
    refine ⟨hbase.since hsince, .inr rfl, fun hfirst => ?_, fun _ => hholding.since hsince,
      fun hdont hone => ?_⟩
    · exact absurd (h.firstTry.symm.trans hfirst) Bool.false_ne_true
    · exact absurd ((h.cleared hone).symm.trans hdont) Bool.false_ne_true

/-- A static password that was checked on request. -/
theorem AuthAsks.validate (h : AuthAsks cfg u l w tr) (spass : CString) (ret : ℕ)
    (hw : KeepsSpent cfg.toCfg u w.lib w'.lib) :
    let tr' := tr ++ [⟨.spassValidate l.s spass, w, ret, w'⟩]
    Bounded cfg tr' ∧ (ret = 0 → AuthAsks cfg u l w' tr') ∧
      (ret ≠ 0 → AuthInv cfg u { l with tries := l.tries + 1, dontIncrement := true } w' tr') := by
  set ev : PamMade := ⟨.spassValidate l.s spass, w, ret, w'⟩ with hev
  have hcompared : compared (tr ++ [ev]) = compared tr := by
    rw [compared_snoc, hev]
    simp [comparison]
  have hfailed : failedAttempts (tr ++ [ev]) = failedAttempts tr + (decide (ret ≠ 0)).toNat := by
    rw [failedAttempts_snoc, hev]
    simp [failedAttempt]
  have hle : (decide (ret ≠ 0)).toNat ≤ 1 := Bool.toNat_le _
  have hwithin := h.within
  have htries := h.tries
  have hcount := h.count
  have hbounded : Bounded cfg (tr ++ [ev]) := by
    refine ⟨by omega, fun hretry => ?_⟩
    rw [hcompared]
    exact h.once hretry
  have hspent : ∀ n ∈ compared (tr ++ [ev]), Spent cfg.toCfg u n w'.lib := by
    rw [hcompared]
    exact fun n hn => hw n (h.spent n hn)
  have hholding : Holding cfg u l.s w' (tr ++ [ev]) := by
    obtain ⟨e, he, ⟨s0, w0, s1, w1, p, hmem, hrest⟩, hspent⟩ := h.holding
    exact ⟨e, he, ⟨s0, w0, s1, w1, p, List.mem_append_left _ hmem, hrest⟩, hw _ hspent⟩
  have hfresh (hretry : cfg.pamRetry ≤ 1) : l.s.counter ∉ compared (tr ++ [ev]) := by
    rw [hcompared]
    exact h.fresh hretry
  refine ⟨hbounded, fun hret => ?_, fun hret => ?_⟩
  · refine ⟨⟨hbounded, h.user, ?_, ?_, hspent⟩, hwithin, h.retval, h.firstTry, h.cleared, hholding,
      hfresh⟩
    · rw [hfailed, hret]
      exact htries
    · rw [hcompared]
      exact hcount
  · refine ⟨⟨hbounded, h.user, ?_, ?_, hspent⟩, .inr h.retval, fun hfirst => ?_, fun _ => hholding,
      fun _ hretry => hfresh hretry.le⟩
    · rw [hfailed, decide_eq_true hret]
      exact congrArg (· + 1) htries
    · rw [hcompared]
      exact hcount.trans (Nat.le_succ _)
    · exact absurd (h.firstTry.symm.trans hfirst) Bool.false_ne_true

theorem authSend_spec (h : AuthAsks cfg u l w tr) :
    wpPam crypto cfg.toCfg me (authSend cfg l) (PartEnd crypto cfg u (AuthInv cfg u)) w tr := by
  refine wpPam_quiet_seq (phOobSend_quiet h.user.username) (fun w' tr' hs => ?_)
    fun ret w' tr' hs _ => ?_
  · exact (h.since hs).toBounded
  have h' := h.since hs
  by_cases hret : ret = 0
  · rw [if_pos hret]
    have hmsg := @phShowMessage_quiet cfg u "Out-of-band message sent.".toList
    refine wpPam_quiet_seq hmsg (fun w'' tr'' hs' => ?_) fun _ w'' tr'' hs' _ => ?_
    · exact (h'.since hs').toBounded
    · exact (h'.since hs').again true
  · rw [if_neg hret]
    exact h'.again l.oobSent

theorem authRequest_spec (h : AuthAsks cfg u l w tr) (spass : Option CString) :
    wpPam crypto cfg.toCfg me (authRequest cfg l spass) (PartEnd crypto cfg u (AuthInv cfg u)) w
      tr := by
  unfold authRequest
  by_cases hsent : l.oobSent = true
  · rw [if_pos hsent]
    have hmsg := @phShowMessage_quiet cfg u "Out-of-band message already sent.".toList
    refine wpPam_quiet_seq hmsg (fun w' tr' hs => ?_) fun _ w' tr' hs _ => ?_
    · exact (h.since hs).toBounded
    · exact (h.since hs).again l.oobSent
  rw [if_neg hsent]
  by_cases hrequest : cfg.pamOob = oobRequest
  · rw [if_pos hrequest]
    exact authSend_spec h
  rw [if_neg hrequest]
  by_cases hsecure : cfg.pamOob = oobSecureRequest
  · -- the static password is asked for before the message is sent
    rw [if_pos hsecure]
    have hquery : Pam.KeepsCounter u (.sys (.query false spassPrompt spass)) := trivial
    unfold phValidateSpass phQueryUser
    refine wpPam_call hquery (fun w' _ => h.toBounded) fun _ w' hw _ => ?_
    have h' := h.query false spassPrompt spass hw
    rcases spass with _ | spass
    · exact h'.toBounded
    have hvalidate : Pam.KeepsCounter u (.spassValidate l.s spass) := trivial
    refine wpPam_call hvalidate (fun w'' _ => h'.toBounded) fun ret w'' hw' _ => ?_
    obtain ⟨hbounded, hok, hfail⟩ := h'.validate spass ret hw'
    by_cases hret : ret = 0
    · rw [if_pos hret]
      exact authSend_spec (hok hret)
    · rw [if_neg hret]
      have hsleep : Pam.Quiet u (.sys (.sleep 2)) := ⟨trivial, trivial⟩
      refine wpPam_call hsleep.1 (fun w3 _ => hbounded) fun x w3 hw3 _ => ?_
      exact (hfail hret).since (.quiet hsleep x hw3)
  · rw [if_neg hsecure]
    exact h.toBounded

/-! ### The whole loop -/

theorem getLast?_responses (answer : Option CString) (echo : Bool) (prompt : List Char)
    (x : PUnit) :
    (responses (tr ++ [⟨.sys (.query echo prompt answer), w, x, w'⟩])).getLast? = some answer := by
  rw [responses_snoc]
  exact List.getLast?_concat

theorem authNone_spec (hretry : 0 ≤ cfg.pamRetry) (hlimit : 0 < authLimit cfg)
    (h : AuthInv cfg u l w tr) :
    wpPam crypto cfg.toCfg me (authNone cfg l) (AuthDone crypto cfg u) w tr := by
  refine wpPam_part (authBegin_spec hretry hlimit h) fun l w tr h => ?_
  have hquery : Pam.KeepsCounter u
      (.sys (.query (pppFlagCheck l.s flagShow) l.prompt none)) := trivial
  refine wpPam_call hquery (fun w' _ => h.toBounded.done (by simp)) fun x w' hw _ => ?_
  refine (h.query _ _ none hw).toBounded.done fun s hs => ?_
  have hretval : l.retval = .success := (Prod.mk.inj (Option.some.inj hs)).1
  rw [h.retval] at hretval
  cases hretval

theorem authAnswer_spec (hretry : 0 ≤ cfg.pamRetry) (hlimit : 0 < authLimit cfg)
    (h : AuthInv cfg u l w tr) (resp : CString) (spass : Option CString)
    {again after : Auth → PamM (PamCode × State)}
    (hagain : ∀ l w tr, AuthInv cfg u l w tr →
      wpPam crypto cfg.toCfg me (again l) (AuthDone crypto cfg u) w tr)
    (hafter : ∀ l w tr, AuthInv cfg u l w tr →
      wpPam crypto cfg.toCfg me (after l) (AuthDone crypto cfg u) w tr) :
    wpPam crypto cfg.toCfg me (authAnswer cfg l resp spass again after) (AuthDone crypto cfg u) w
      tr := by
  refine wpPam_part (authBegin_spec hretry hlimit h) fun l w tr h => ?_
  have hquery : Pam.KeepsCounter u
      (.sys (.query (pppFlagCheck l.s flagShow) l.prompt (some resp))) := trivial
  refine wpPam_call hquery (fun w' _ => h.toBounded.done (by simp)) fun x w' hw _ => ?_
  have h' := h.query (pppFlagCheck l.s flagShow) l.prompt (some resp) hw
  by_cases hdot : resp.val = oobResponse
  · -- a request for a message: another response may have been read for it
    rw [if_pos hdot]
    refine wpPam_part (authRequest_spec h' spass) fun l' w'' tr'' h'' => ?_
    split
    · exact hafter l' w'' tr'' h''
    · exact hagain l' w'' tr'' h''
  · rw [if_neg hdot]
    exact wpPam_part (authTry_spec h' resp (getLast?_responses _ _ _ _)) hagain

theorem authLoop_spec (hretry : 0 ≤ cfg.pamRetry) (hlimit : 0 < authLimit cfg)
    (answers : List (Option CString)) (h : AuthInv cfg u l w tr) :
    wpPam crypto cfg.toCfg me (authLoop cfg answers l) (AuthDone crypto cfg u) w tr := by
  have hnone (l : Auth) (w : PamWorld) (tr : PamHistory) (h : AuthInv cfg u l w tr) :
      wpPam crypto cfg.toCfg me (authNone cfg l) (AuthDone crypto cfg u) w tr :=
    authNone_spec hretry hlimit h
  -- a request for a message takes two responses at a time
  induction answers using List.twoStepInduction generalizing l w tr with
  | nil => exact hnone l w tr h
  | singleton resp =>
    cases resp with
    | none => exact hnone l w tr h
    | some resp => exact authAnswer_spec hretry hlimit h resp none hnone hnone
  | cons_cons resp spass rest ihafter ihagain =>
    cases resp with
    | none => exact hnone l w tr h
    | some resp =>
      exact authAnswer_spec hretry hlimit h resp spass (fun l w tr h => ihagain spass h)
        fun l w tr h => ihafter h

/-- The loop and the cleanup. -/
theorem authRun_spec (hretry : 0 ≤ cfg.pamRetry) (hlimit : 0 < authLimit cfg) {s : State}
    (answers : List (Option CString)) (h : AuthInv cfg u (Auth.start s) w tr) :
    wpPam crypto cfg.toCfg me (authRun cfg s answers)
      (fun r w' tr' => Bounded cfg tr' ∧ (r = some .success → Proven crypto cfg w' tr')) w tr := by
  refine wpOver_seq (authLoop_spec hretry hlimit answers h) (fun w' tr' hd => ?_) ?_
  · exact ⟨hd.toBounded, by simp⟩
  rintro ⟨retval, s'⟩ w' tr' hd
  have hfini : QuietPart u (fun _ => True) (phFini s') :=
    issues_call ⟨trivial, trivial⟩ fun _ => trivial
  refine wpPam_quiet_seq hfini (fun w'' tr'' hs => ?_) fun _ w'' tr'' hs _ => ?_
  · exact ⟨hd.toBounded.since hs, by simp⟩
  · refine ⟨hd.toBounded.since hs, fun hr => ?_⟩
    obtain rfl := Option.some.inj hr
    obtain ⟨s1, e, resp, hreserved, hlast, hresp, hspent⟩ := hd.success s' rfl
    exact ⟨u, s1, e, resp, hreserved.since hs, (congrArg List.getLast? hs.responses).trans hlast,
      hresp, hs.spent _ hspent⟩

end

end Otpasswd
