import Otpasswd.Libotp.Budget
import Otpasswd.Utility.CardLayout
import Otpasswd.Utility.Print

/-!
# Otpasswd.Utility.PrintNext — printing the next cards

The utility picks the card of `next` from the current and the latest card, the
agent accepts a new latest card by two adjacency tests of its own. A text
action agrees with them only while the current card is at most one behind the
latest; the six cards of a LaTeX action are never recorded at all.

Main result: `nextUnprinted_of_recorded`.
-/

namespace Otpasswd

open CText Prog

/-! ## The cards of an entry -/

/-- The card that the passcode of the counter is on. -/
def Entry.currentCard (e : Entry) : Num :=
  numAddI (numDivI e.justCounter
    (BitVec.ofNat 64 (codesPerRow e.codeLength.toNat * rowsPerCard))).1 1

/-- The card behind the latest, or the current one where that is used up. -/
def Entry.nextCard (e : Entry) : ℕ :=
  if e.latestCard.toNat + 1 < e.currentCard.toNat then e.currentCard.toNat
  else e.latestCard.toNat + 1

section

variable {cfg : Cfg} {s : State} {lock : ℤ} {e : Entry}

theorem loaded_currentCard (hs : s.codeMask = codeMask) :
    (s.loaded lock e).currentCard = e.currentCard := by
  have hcounter : ((s.setLock lock).load e).justCounter = e.justCounter := by
    simp only [State.justCounter, State.load, State.setLock, hs, Entry.justCounter, Entry.Salted]
    congr
  simp only [State.loaded, calculate, hcounter, Entry.currentCard]
  rfl

theorem loaded_latestCard : (s.loaded lock e).latestCard = e.latestCard := rfl

/-- There are always more than five cards. -/
theorem loaded_maxCard (hs : s.codeMask = codeMask) (hv : e.Valid) :
    5 ≤ (s.loaded lock e).maxCard.toNat := by
  obtain ⟨h2, h11⟩ := codesPerRow_bounds hv.codeLength_ge hv.codeLength_le
  have hcodes : codesPerRow e.codeLength.toNat * rowsPerCard ≤ 110 :=
    Nat.mul_le_mul_right rowsPerCard h11
  have hpos : 0 < codesPerRow e.codeLength.toNat * rowsPerCard :=
    Nat.mul_pos (by omega) (by decide)
  have hbound : ∀ n : Num, 660 ≤ n.toNat → 5 ≤ (numSubI (numDivI n
      (BitVec.ofNat 64 (codesPerRow e.codeLength.toNat * rowsPerCard))).1 1).toNat := by
    intro n hn
    rw [toNat_maxCard n hpos hcodes (by omega)]
    have hsix : 6 ≤ n.toNat / (codesPerRow e.codeLength.toNat * rowsPerCard) := by
      rw [Nat.le_div_iff_mul_le hpos]
      omega
    omega
  simp only [State.loaded, calculate]
  split_ifs
  · rw [show ((s.setLock lock).load e).codeMask = codeMask from hs]
    exact hbound codeMask (by rw [codeMask_eq]; decide)
  · exact hbound maxCardUnsalted (by decide)

/-- The card of `next` is the one that the entry says, as long as there is a
number behind the latest card. -/
theorem loaded_nextCard (hs : s.codeMask = codeMask) (hroom : e.latestCard.toNat + 1 < 2 ^ 128) :
    (s.loaded lock e).nextCard.toNat = e.nextCard := by
  rw [State.nextCard, loaded_currentCard hs, loaded_latestCard, Entry.nextCard]
  split_ifs with hpos hlt hlt
  · rfl
  · rw [numCmp_pos_iff] at hpos
    omega
  · rw [numCmp_pos_iff] at hpos
    omega
  · rw [toNat_succ, Nat.mod_eq_of_lt hroom]

theorem Entry.latestCard_lt_nextCard (e : Entry) : e.latestCard.toNat < e.nextCard := by
  rw [Entry.nextCard]
  split_ifs with h
  · omega
  · omega

theorem Entry.currentCard_le_nextCard (e : Entry) : e.currentCard.toNat ≤ e.nextCard := by
  rw [Entry.nextCard]
  split_ifs with h
  · omega
  · omega

end

/-- The numbers of consecutive cards. -/
theorem toNat_cardsFrom {item : Num} {n : ℕ} (hn : n ≤ 6) (h : item.toNat + n ≤ 2 ^ 128) :
    (cardsFrom item n).map Num.toNat = (List.range n).map (item.toNat + ·) := by
  rw [cardsFrom, List.map_map]
  refine List.map_congr_left fun i hi => ?_
  have hi' := List.mem_range.mp hi
  have hnum : (BitVec.ofNat 64 i).toNat = i := by
    rw [BitVec.toNat_ofNat]
    exact Nat.mod_eq_of_lt (by omega)
  rw [Function.comp_apply, Num.toNat_numAddI, hnum, Nat.mod_eq_of_lt (by omega)]

/-! ## Runs -/

/-- A step on the account of a user. -/
inductive PrintStep where
  | increment (x : CounterCall)
  | print (job : PrintJob)

/-- A call of `ppp_increment` for this user. -/
def CounterCall.IncrementFor (u : CString) (x : CounterCall) : Prop :=
  x.skipTo = none ∧ x.mem.For u

/-- The steps are the user's, and print the next cards. -/
def PrintStep.For (u : CString) : PrintStep → Prop
  | .increment x => x.IncrementFor u
  | .print job => NextSpec job.spec ∧ ∀ x ∈ job.meanwhile, x.IncrementFor u

section

variable (crypto : Crypto) (cfg : Cfg) (u : CString)

def PrintStep.exec (w : World) : PrintStep → World
  | .increment x => (x.exec cfg w).2
  | .print job => (job.run crypto cfg u w).world

def runPrints (steps : List PrintStep) (w : World) : World :=
  steps.foldl (PrintStep.exec crypto cfg u) w

/-- An action that succeeds prints as many cards as its mode says, from the
card behind the latest or the current one on, and all of them behind every card
that an earlier action has printed. -/
def NextUnprinted (steps : List PrintStep) (w : World) : Prop :=
  ∀ pre job post, steps = pre ++ .print job :: post →
    (job.run crypto cfg u (runPrints crypto cfg u pre w)).ret = 0 →
    (∀ e, dbLookup ((runPrints crypto cfg u pre w).file (dbLoc cfg u)) u = some e →
      (job.run crypto cfg u (runPrints crypto cfg u pre w)).cards.map Num.toNat =
        (List.range job.mode.count).map (e.nextCard + ·)) ∧
    ∀ pre1 job1 mid, pre = pre1 ++ .print job1 :: mid →
      ∀ card1 ∈ (job1.run crypto cfg u (runPrints crypto cfg u pre1 w)).cards,
        ∀ card ∈ (job.run crypto cfg u (runPrints crypto cfg u pre w)).cards,
          card1.toNat < card.toNat

/-- The latest card has a successor. -/
def HasNext (w : World) : Prop :=
  ∀ e, dbLookup (w.file (dbLoc cfg u)) u = some e → e.latestCard.toNat + 1 < 2 ^ 128

/-- What a text action prints will be recorded: no card behind the latest was
skipped, and the update succeeds. -/
structure PrintJob.Recorded (job : PrintJob) (w : World) : Prop where
  text : job.mode ≠ .latex
  adjacent : ∀ e, dbLookup (w.file (dbLoc cfg u)) u = some e →
    e.currentCard.toNat ≤ e.latestCard.toNat + 1
  serves : (job.updateWorld crypto cfg u w).Serves cfg job.me
  free : (job.updateWorld crypto cfg u w).Free
  inRange : ∃ e, dbLookup ((job.updateWorld crypto cfg u w).file (dbLoc cfg u)) u = some e ∧
    e.InRange
  copyable : CopyableFile u ((job.updateWorld crypto cfg u w).file (dbLoc cfg u))

/-- All that an action would print in the first world is used up in the second. -/
def PrintJob.UsedUp (job : PrintJob) (w w' : World) : Prop :=
  ∀ e e', dbLookup (w.file (dbLoc cfg u)) u = some e →
    dbLookup (w'.file (dbLoc cfg u)) u = some e' →
    e.nextCard + job.mode.count ≤ e'.currentCard.toNat

end

section

variable {crypto : Crypto} {cfg : Cfg} {u : CString} {w w' : World} {P : Entry → Prop}
  {job : PrintJob} {p : PrintEnd} {a : Agent} {s : State} {e : Entry}

/-! ## What a step leaves -/

/-- A counter that moves keeps what says nothing about it. -/
theorem CounterCall.IncrementFor.guarded {x : CounterCall} (hx : x.IncrementFor u)
    (hP : ∀ e n, P e → P { e with counter := n }) (h : Guarded cfg u P w) :
    Guarded cfg u P (x.exec cfg w).2 := by
  cases callEnd cfg hx.2 w with
  | kept hfile => exact h.of_file hfile
  | incremented e hskip hallowed hreplaced =>
    have hv := (dbLookup_valid hreplaced.before).setCounter (numAdd e.counter (numI 1))
    exact hreplaced.guarded hv (hP e _ (h.lookup e hreplaced.before))
  | skipped e skipTo hskip =>
    rw [hx.1] at hskip
    cases hskip

theorem runCalls_guarded {calls : List CounterCall} (hcalls : ∀ x ∈ calls, x.IncrementFor u)
    (hP : ∀ e n, P e → P { e with counter := n }) (h : Guarded cfg u P w) :
    Guarded cfg u P (runCalls cfg calls w) := by
  induction calls generalizing w with
  | nil => exact h
  | cons x xs ih =>
    have hx := (hcalls x List.mem_cons_self).guarded hP h
    exact ih (fun y hy => hcalls y (List.mem_cons_of_mem _ hy)) hx

/-- The latest card that is accepted is no smaller. -/
theorem updateLatest_sets {card : Num} {privileged : Bool} {s' : State}
    (h : (Request.number .updateLatest card).Sets cfg privileged s 0 s') :
    latestOk s card = true ∧ s' = s.setLatestCard card := by
  have hset : updateLatest card s = .ret (0, s') := h
  rw [updateLatest] at hset
  split_ifs at hset with hok
  · exact ⟨hok, (ret_pair hset).2.symm⟩
  · exact absurd (ret_pair hset).1 (by simp)

theorem latestOk_iff {card : Num} :
    latestOk s card = true ↔ s.latestCard.toNat ≤ card.toNat ∧
      (numCmp (numAddI s.latestCard 1) card = 0 ∨ numCmp (numAddI s.currentCard 1) card = 0) := by
  rw [latestOk, Bool.and_eq_true, decide_eq_true_iff, decide_eq_true_iff, numCmp_pos_iff, not_lt,
    not_and_or, not_not, not_not]

/-- The update of the latest card leaves it no smaller. -/
theorem updateLatest_guarded {n : ℕ} {card : Num} {me : Pid} (hok : a.Ok) (hu : a.username = u)
    (hname : ReadableName u) (h : Guarded cfg u (fun e => n ≤ e.latestCard.toNat) w) :
    Guarded cfg u (fun e => n ≤ e.latestCard.toNat)
      (handled crypto cfg me a w (.number .updateLatest card)).2 := by
  have hhandling := @handled_handling crypto cfg me a (.number .updateLatest card) w hok
  subst hu
  refine hhandling.db.preserves hname h (fun htype => ?_) fun e e' hlook hP hchange => ?_
  · cases htype
  · cases hchange with
    | set s s' lock hsets =>
      obtain ⟨hok', rfl⟩ := updateLatest_sets hsets
      exact hP.trans (latestOk_iff.mp hok').1
    | counted htype => rcases htype with h' | h' <;> cases h'
    | cleared htype => cases htype

theorem PrintJob.End.guarded {n : ℕ} (hmeanwhile : ∀ x ∈ job.meanwhile, x.IncrementFor u)
    (hend : job.End crypto cfg u w p) (hw : (job.loaded crypto cfg u w).2.Keeps w)
    (h : Guarded cfg u (fun e => n ≤ e.latestCard.toNat) w) :
    Guarded cfg u (fun e => n ≤ e.latestCard.toNat) p.world := by
  have hloaded := h.keeps hw
  cases hend with
  | refused ret hret => exact hloaded
  | printed a s e p hfresh hdef hlook hholds hnext =>
    have hheld := hfresh.loaded_held e (.inl rfl)
    have hok : a.Ok := hholds.ok_some hheld
    have hmid := runCalls_guarded hmeanwhile (fun _ _ hP => hP) hloaded
    have hupdate (card : Num) := @updateLatest_guarded crypto cfg u _ a n card job.me hok
      hholds.username (dbLookup_readable hlook) hmid
    cases hnext with
    | silent ret hret => exact hloaded
    | text ret out hmode => exact hupdate _
    | latex ret out hmode hroom => exact hupdate _

/-- No step makes the latest card smaller. -/
theorem PrintStep.exec_guarded {n : ℕ} {step : PrintStep} (hfor : step.For u)
    (h : Guarded cfg u (fun e => n ≤ e.latestCard.toNat) w) :
    Guarded cfg u (fun e => n ≤ e.latestCard.toNat) (step.exec crypto cfg u w) := by
  cases step with
  | increment x => exact CounterCall.IncrementFor.guarded hfor (fun _ _ hP => hP) h
  | print job =>
    obtain ⟨hw, hend⟩ := job.run_end crypto cfg u w hfor.1
    exact hend.guarded hfor.2 hw h

theorem runPrints_guarded {n : ℕ} {steps : List PrintStep} (hfor : ∀ step ∈ steps, step.For u)
    (h : Guarded cfg u (fun e => n ≤ e.latestCard.toNat) w) :
    Guarded cfg u (fun e => n ≤ e.latestCard.toNat) (runPrints crypto cfg u steps w) := by
  induction steps generalizing w with
  | nil => exact h
  | cons step steps ih =>
    have hstep := @PrintStep.exec_guarded crypto cfg u w n step (hfor step List.mem_cons_self) h
    exact ih (fun s hs => hfor s (List.mem_cons_of_mem _ hs)) hstep

/-! ## What an action prints -/

theorem cardsFrom_loaded {lock : ℤ} {n : ℕ} (hs : s.codeMask = codeMask)
    (hroom : e.latestCard.toNat + 1 < 2 ^ 128) (hn : n ≤ 6)
    (hlast : (s.loaded lock e).nextCard.toNat + n ≤ 2 ^ 128) :
    (cardsFrom (s.loaded lock e).nextCard n).map Num.toNat =
      (List.range n).map (e.nextCard + ·) := by
  rw [toNat_cardsFrom hn hlast, loaded_nextCard hs hroom]

/-- The cards start where `next` says, and an action prints none or all. -/
theorem PrintJob.End.cards (hend : job.End crypto cfg u w p) (hnext : HasNext cfg u w) :
    p.ret ≠ 0 ∧ p.cards = [] ∨ ∃ e, dbLookup (w.file (dbLoc cfg u)) u = some e ∧
      p.cards.map Num.toNat = (List.range job.mode.count).map (e.nextCard + ·) := by
  cases hend with
  | refused ret hret => exact .inl ⟨hret, rfl⟩
  | printed a s e p hfresh hdef hlook hholds h =>
    have hroom := hnext e hlook
    have hlt := (s.loaded (-1) e).nextCard.toNat_lt
    cases h with
    | silent ret hret =>
      by_cases hmode : job.mode = .prompt
      · refine .inr ⟨e, hlook, ?_⟩
        rw [hmode]
        rfl
      · exact .inl ⟨hret hmode, rfl⟩
    | text ret out hmode =>
      refine .inr ⟨e, hlook, ?_⟩
      rw [hmode]
      exact cardsFrom_loaded hfresh.codeMask hroom (by decide) (by omega)
    | latex ret out hmode hlast =>
      refine .inr ⟨e, hlook, ?_⟩
      rw [hmode]
      have hmax := @loaded_maxCard s (-1) e hfresh.codeMask (dbLookup_valid hlook)
      have hcard := (s.loaded (-1) e).maxCard.toNat_lt
      have hfive : (5 : Word64).toNat = 5 := rfl
      rw [Num.toNat_numSubI, hfive] at hlast
      refine cardsFrom_loaded hfresh.codeMask hroom (by decide) ?_
      omega

/-- The numbers of the cards are between that of `next` and the last one. -/
theorem mem_cards {cards : List Num} {card : Num} {n m : ℕ} (hcard : card ∈ cards)
    (h : cards.map Num.toNat = (List.range n).map (m + ·)) :
    m ≤ card.toNat ∧ card.toNat < m + n := by
  have hmem : card.toNat ∈ (List.range n).map (m + ·) := by
    rw [← h]
    exact List.mem_map_of_mem hcard
  obtain ⟨i, hi, heq⟩ := List.mem_map.mp hmem
  have hi' := List.mem_range.mp hi
  omega

/-! ## What is recorded -/

/-- The agent accepts the card behind the latest, and stores it. -/
theorem updateLatest_stores {me : Pid} {e' : Entry} {card : Num} (hfresh : s.Fresh u)
    (hdef : 2 ≤ cfg.passcodeDefLength ∧ cfg.passcodeDefLength ≤ 16)
    (hu : a.username = u) (hn : a.named = true) (ha : a.s = some (s.loaded (-1) e))
    (hnew : a.newState = false) (hserves : w.Serves cfg me) (hfree : w.Free)
    (hlook : dbLookup (w.file (dbLoc cfg u)) u = some e') (hrange : e'.InRange)
    (hcopy : CopyableFile u (w.file (dbLoc cfg u))) (hsame : e'.latestCard = e.latestCard)
    (hcard : card = numAddI e.latestCard 1) (hroom : e.latestCard.toNat + 1 < 2 ^ 128) :
    Guarded cfg u (fun e => card.toNat ≤ e.latestCard.toNat)
      (handled crypto cfg me a w (.number .updateLatest card)).2 := by
  subst hu
  have hheld := hfresh.loaded_held e (.inl rfl)
  have hok : a.Ok := by
    constructor
    · intro t ht
      obtain rfl := Option.some.inj (ha.symm.trans ht)
      exact hheld
    · intro h
      exact ⟨_, ha⟩
  have hl : a.locked = false := by
    rw [Agent.locked, ha]
    rfl
  -- the card is the one behind the latest, which is what the agent asks for
  have haccepts (t : State) (hlatest : t.latestCard = e.latestCard) : latestOk t card = true := by
    rw [latestOk_iff, hlatest, hcard]
    refine ⟨?_, .inl ?_⟩
    · rw [toNat_succ, Nat.mod_eq_of_lt hroom]
      omega
    · exact le_antisymm (not_lt.mp fun h => lt_irrefl _ ((numCmp_pos_iff _ _).mp h))
        ((numCmp_nonneg_iff _ _).mpr le_rfl)
  have hchange (t : State) (lock : ℤ) (_ : t.Fresh a.username) :
      ∃ t', updateLatest card (t.loaded lock e') = .ret (0, t') ∧
        (t.loaded lock e').Beside t' := by
    refine ⟨(t.loaded lock e').setLatestCard card, ?_, ⟨rfl, rfl, rfl, rfl, rfl⟩, rfl, rfl⟩
    rw [updateLatest, if_pos (haccepts _ hsame)]
    rfl
  have hstore := atomically_ok hserves hfree hdef hok hn hl hnew hlook hrange hcopy hchange
  -- neither the policy nor the first check of the card refuses it
  have hhandle : requestHandle crypto cfg a (.number .updateLatest card) =
      replyWith (atomically cfg a (updateLatest card)) := by
    rw [@requestHandle_allowed crypto cfg a (.number .updateLatest card) hl rfl]
    have hany : ¬ a.s.any (fun s => !latestOk s card) = true := by
      rw [ha, Option.any_some, haccepts _ rfl]
      decide
    exact if_neg hany
  have hreply : wp (Sys.exec me) (requestHandle crypto cfg a (.number .updateLatest card))
      (fun r _ => ∃ a', r = some (0, a') ∧ a.AnsweredOk a') w := by
    rw [hhandle]
    refine wp_replyWith hstore (by simp) ?_
    rintro retval a1 w1 ⟨s', hr, hlock, -⟩
    obtain ⟨rfl, rfl⟩ := Prod.mk.inj (Option.some.inj hr)
    have hl1 : (a.setS (some s')).locked = false := by
      change decide (0 < s'.lock) = false
      rw [hlock]
      rfl
    exact ⟨_, rfl, answeredOk_sendReply hl1 rfl⟩
  obtain ⟨a', hr, hanswer⟩ := hreply
  have hhandling := @handled_handling crypto cfg me a (.number .updateLatest card) w hok
  have hr' : (handled crypto cfg me a w (.number .updateLatest card)).1 = some (0, a') := hr
  rw [hr'] at hhandling
  -- the reply is OK, so the change was stored
  obtain ⟨t, t', lock, e2, hsets, hreplaced⟩ :=
    hhandling.stores (by simp [Request.Setter, Request.number, Request.plain]) hnew hanswer
  have hv : t'.entry.Valid := hsets.valid (by
    rw [loaded_entry]
    exact dbLookup_valid hreplaced.before)
  refine hreplaced.guarded hv ?_
  rw [(updateLatest_sets hsets).2]
  exact le_rfl

theorem PrintJob.End.recorded {card : Num} (hend : job.End crypto cfg u w p)
    (hw : (job.loaded crypto cfg u w).2.Keeps w)
    (hmeanwhile : ∀ x ∈ job.meanwhile, x.IncrementFor u) (hnext : HasNext cfg u w)
    (hrecorded : job.Recorded crypto cfg u w) (hcard : card ∈ p.cards) :
    Guarded cfg u (fun e => card.toNat ≤ e.latestCard.toNat) p.world := by
  cases hend with
  | refused ret hret => exact absurd hcard List.not_mem_nil
  | printed a s e p hfresh hdef hlook hholds h =>
    have hroom := hnext e hlook
    cases h with
    | silent ret hret => exact absurd hcard List.not_mem_nil
    | latex ret out hmode => exact absurd hmode hrecorded.text
    | text ret out hmode =>
      have hitem : (s.loaded (-1) e).nextCard = numAddI e.latestCard 1 := by
        apply Num.ext_toNat
        rw [loaded_nextCard hfresh.codeMask hroom, toNat_succ, Nat.mod_eq_of_lt hroom,
          Entry.nextCard, if_neg (Nat.not_lt.mpr (hrecorded.adjacent e hlook))]
      have hcard' : card = (s.loaded (-1) e).nextCard := by
        have hlt := (s.loaded (-1) e).nextCard.toNat_lt
        have hmem := mem_cards hcard
          (toNat_cardsFrom (by decide) (by omega : (s.loaded (-1) e).nextCard.toNat + 1 ≤ 2 ^ 128))
        exact Num.ext_toNat (by omega)
      have hguarded : Guarded cfg u (fun e' => e'.latestCard = e.latestCard) w := by
        refine ⟨fun e' he' => ?_, Intact.of_lookup hlook⟩
        rw [Option.some.inj (he'.symm.trans hlook)]
      obtain ⟨e', he', hrange⟩ := hrecorded.inRange
      have hsame := (runCalls_guarded hmeanwhile (fun _ _ h => h) (hguarded.keeps hw)).lookup e' he'
      have hstores := @updateLatest_stores crypto cfg u _ a s e job.me e' card hfresh hdef
        hholds.username hholds.named hholds.s hholds.newState hrecorded.serves hrecorded.free he' hrange
        hrecorded.copyable hsame (hcard'.trans hitem) hroom
      rw [hcard'] at hstores ⊢
      exact hstores

theorem runPrints_nil (w : World) : runPrints crypto cfg u [] w = w := rfl

theorem runPrints_print (job : PrintJob) (steps : List PrintStep) :
    runPrints crypto cfg u (.print job :: steps) w =
      runPrints crypto cfg u steps (job.run crypto cfg u w).world := rfl

theorem runPrints_append (pre post : List PrintStep) :
    runPrints crypto cfg u (pre ++ post) w =
      runPrints crypto cfg u post (runPrints crypto cfg u pre w) :=
  List.foldl_append ..

end

/-! ## What a text action prints -/

section

variable {crypto : Crypto} {cfg : Cfg} {me : Pid} {u : CString} {w w' : World} {job : PrintJob}
  {a : Agent} {s : State} {item : Num}

/-- An agent that may print passcodes of an alphabet that is allowed. -/
structure Agent.Prints (cfg : Cfg) (a : Agent) (s : State) : Prop where
  holds : a.s = some s
  unlocked : a.locked = false
  allowed : a.privileged = true ∨ cfg.passcodePrint ≠ configDisallow
  codeLength : 2 ≤ s.codeLength.toNat ∧ s.codeLength.toNat ≤ 16
  alphabet : pppVerifyAlphabet cfg s.alphabet.toInt = 0
  letters : pppAlphabet cfg s.alphabet.toNat ≠ []
  plain : '\x00' ∉ pppAlphabet cfg s.alphabet.toNat

/-- It is told the passcode of a number. -/
theorem Agent.Prints.getPasscode (h : a.Prints cfg s) (m : Num) :
    (a.getters crypto cfg me w).getPasscode m = .ok (passcodeOf crypto cfg s (pppAddSalt s m)) := by
  set passcode := passcodeOf crypto cfg s (pppAddSalt s m) with hpasscode
  have hlen : passcode.length = s.codeLength.toNat := length_passcodeChars _ _ _
  have hpolicy : requestVerifyPolicy cfg a (.number .getPasscode m) = .ret (agentOk, a) := by
    have hnot : ¬ (a.privileged = false ∧ cfg.passcodePrint = configDisallow) := by
      rintro ⟨hpriv, hdeny⟩
      rcases h.allowed with h' | h'
      · rw [h'] at hpriv
        cases hpriv
      · exact h' hdeny
    change pure (unlessPrivileged a (cfg.passcodePrint = configDisallow), a) = _
    rw [unlessPrivileged, if_neg hnot]
    rfl
  have hget : (pppGetPasscode crypto cfg s m >>= fun r =>
      agentHdrSetStr (a.hdrInit 0) (.text r.2) >>= fun a =>
        (pure (r.1, a) : SysM (ℕ × Agent))) =
      .ret (0, (a.hdrInit 0).hdrSetStr (.text passcode)) := by
    rw [pppGetPasscode, assert, if_pos h.codeLength, ret_bind, if_neg (not_not.mpr h.alphabet)]
    change agentHdrSetStr (a.hdrInit 0) (.text passcode) >>= _ = _
    have hfits : passcode.length < agentArgMax := by
      rw [hlen]
      exact h.codeLength.2.trans_lt (by decide)
    rw [agentHdrSetStr, assert, if_pos hfits]
    rfl
  have hrun := @handled_looks crypto cfg me a _ s w (.number .getPasscode m) _ _ h.holds h.unlocked
    hpolicy rfl hget
  have hreply := @agentReply_sendReply a ((a.hdrInit 0).hdrSetStr (.text passcode)) h.unlocked rfl
    agentOk 0
  simp only [Agent.getters, hrun, hreply]
  have h16 : passcode.take 16 = passcode := List.take_of_length_le (by
    rw [hlen]
    exact h.codeLength.2)
  exact congrArg Except.ok h16

theorem Agent.Prints.answered (h : a.Prints cfg s) (m : Num) :
    Answered (a.getters crypto cfg me w) s.codeLength.toNat m :=
  ⟨_, h.getPasscode m, length_passcodeChars _ _ _,
    fun hmem => h.plain (passcodeChars_mem h.letters hmem)⟩

/-- Such an agent gets every card printed. -/
theorem Agent.Prints.card (h : a.Prints cfg s) {host : List Char} (hhost : '\x00' ∉ host)
    (hitem : 1 ≤ item.toNat) :
    ∃ card, cardAscii (a.getters crypto cfg me w) host item = .ok card := by
  have hof := @getters_of crypto cfg me a s w h.holds h.unlocked
  set a1 := ((a.setS (some s)).hdrInit 0).hdrSetStr (.text s.label.val) with ha1
  have hstr : agentHdrSetStr ((a.setS (some s)).hdrInit 0) (.text s.label.val) = .ret a1 := by
    have hlen := s.label.length_lt
    rw [agentHdrSetStr, assert, if_pos (hlen.trans (by decide))]
    rfl
  have hf : (pppGetStr s .label >>= fun r => agentHdrSetStr ((a.setS (some r.2)).hdrInit 0) r.1 >>=
      fun a' => (pure (agentOk, a') : SysM (ℕ × Agent))) = .ret (agentOk, a1) := by
    change agentHdrSetStr ((a.setS (some s)).hdrInit 0) (.text s.label.val) >>= _ = _
    rw [hstr]
    rfl
  have hexecute : requestExecute crypto cfg a (.field .getStr .label) =
      .ret (agentOk, a1.sendReply agentOk) := by
    change (withState a fun t => pppGetStr t (.ofNum PppField.label.num) >>= fun r =>
      agentHdrSetStr ((a.setS (some r.2)).hdrInit 0) r.1 >>= fun a' => pure (agentOk, a')) >>=
        (fun r => pure (r.1, if PppField.ofNum PppField.label.num = .key then r.2.hdrInit 0
          else r.2)) = _
    rw [PppField.ofNum_num, withState, h.holds]
    simp only
    rw [hf]
    rfl
  have hpolicy : requestVerifyPolicy cfg a (.field .getStr .label) = .ret (agentOk, a) := by
    change pure (unlessPrivileged a ((PppField.ofNum PppField.label.num = .key ∨
      PppField.ofNum PppField.label.num = .counter) ∧ cfg.keyPrint ≠ configAllow), a) = _
    rw [PppField.ofNum_num, unlessPrivileged, if_neg (by simp)]
    rfl
  have hrun : (handled crypto cfg me a w (.field .getStr .label)).1 =
      some (agentOk, a1.sendReply agentOk) := by
    unfold handled
    rw [requestHandle_allowed h.unlocked hpolicy, hexecute]
    rfl
  have hl1 : a1.locked = false := by
    have hl := h.unlocked
    rw [Agent.locked, h.holds] at hl
    exact hl
  have hreply := @agentReply_sendReply a a1 hl1 rfl agentOk agentOk
  have hlabel : (a.getters crypto cfg me w).getStr .label = .ok s.label.val := by
    simp only [Agent.getters, hrun, hreply]
    rfl
  obtain ⟨lines, hcard, -⟩ := cardAscii_layout (a.getters crypto cfg me w) host s.label.val item
    s.codeLength (hof.getInt .codeLength _ rfl) h.codeLength hlabel s.label.nul_not_mem hhost hitem
    fun m _ => h.answered m
  exact ⟨_, hcard⟩

/-- What a text action comes to, when the agent answers the update with `r`. -/
theorem actionPrint_text {host spec : List Char} {r : Option (ℕ × Agent)} (hprints : a.Prints cfg s)
    (hspec : NextSpec spec) (hhost : '\x00' ∉ host) (hitem : 1 ≤ s.nextCard.toNat)
    (hupdate : handled crypto cfg me a w (.number .updateLatest s.nextCard) = (r, w')) :
    (actionPrint crypto cfg me .text host spec id a w).cards = [s.nextCard] ∧
      (actionPrint crypto cfg me .text host spec id a w).world = w' ∧
      (queryStatus (agentReply a r) = agentErrReqArg ∨ queryStatus (agentReply a r) = 0 →
        (actionPrint crypto cfg me .text host spec id a w).ret = 0) := by
  have hof := @getters_of crypto cfg me a s w hprints.holds hprints.unlocked
  have hparse : ahParseCodeSpec (a.getters crypto cfg me w) spec (numI 0) =
      (printCard, s.nextCard) := ahParseCodeSpec_next hof.specNums hspec
  obtain ⟨card, hcard⟩ := @Agent.Prints.card crypto cfg me w a s s.nextCard hprints host hhost hitem
  have hone : cardsFrom s.nextCard 1 = [s.nextCard] := by
    have hzero : numAddI s.nextCard (BitVec.ofNat 64 0) = s.nextCard := by
      apply Num.ext_toNat
      have hword : (BitVec.ofNat 64 0).toNat = 0 := rfl
      rw [Num.toNat_numAddI, hword, Nat.add_zero, Nat.mod_eq_of_lt s.nextCard.toNat_lt]
    change [numAddI s.nextCard (BitVec.ofNat 64 0)] = _
    rw [hzero]
  unfold actionPrint
  simp only [id]
  rw [hparse]
  simp only [printCode, printCard]
  rw [if_neg (by decide), if_pos trivial]
  simp only [hcard]
  rw [hupdate]
  simp only
  refine ⟨hone, trivial, fun h => ?_⟩
  rw [if_neg (fun hne => h.elim hne.1 hne.2)]

/-- How the update of the latest card to `card` is answered, and the world after it. -/
def PrintJob.updated (crypto : Crypto) (cfg : Cfg) (u : CString) (job : PrintJob) (w : World)
    (card : Num) : ℕ × World :=
  (job.loaded crypto cfg u w).1.elim (agentOk, (job.loaded crypto cfg u w).2) fun r =>
    let x := handled crypto cfg job.me r.2 (job.updateWorld crypto cfg u w)
      (.number .updateLatest card)
    (queryStatus (agentReply r.2 x.1), x.2)

/-- A text action prints the next card, and tells the agent. -/
theorem PrintJob.run_text {e : Entry} (hspec : NextSpec job.spec) (hmode : job.mode = .text)
    (hmeanwhile : job.meanwhile = []) (hhost : '\x00' ∉ job.host)
    (hreply : RepliesOk crypto cfg job.me (job.started u) w (.plain .stateLoad))
    (hlook : dbLookup (w.file (dbLoc cfg u)) u = some e)
    (hallowed : job.privileged = true ∨ cfg.passcodePrint ≠ configDisallow)
    (halphabet : pppVerifyAlphabet cfg e.alphabet.toInt = 0)
    (hletters : pppAlphabet cfg e.alphabet.toNat ≠ [])
    (hplain : '\x00' ∉ pppAlphabet cfg e.alphabet.toNat)
    (hnext : e.latestCard.toNat + 1 < 2 ^ 128) {card : Num} (hcard : card.toNat = e.nextCard) :
    (job.run crypto cfg u w).cards = [card] ∧
      (job.run crypto cfg u w).world = (job.updated crypto cfg u w card).2 ∧
      ((job.updated crypto cfg u w card).1 = agentErrReqArg ∨
        (job.updated crypto cfg u w card).1 = 0 → (job.run crypto cfg u w).ret = 0) := by
  obtain ⟨a, w1, hrun, hanswer⟩ := hreply
  obtain ⟨⟨-, hdef, s, e', hfresh, hlook', -, hholds⟩, -⟩ :=
    stateLoad_loads (Agent.start_ok u job.privileged) rfl hrun hanswer
  obtain rfl := Option.some.inj (hlook.symm.trans hlook')
  have hv := dbLookup_valid hlook
  -- what is held is the entry, so the agent answers the questions of the action
  have hprints : a.Prints cfg (s.loaded (-1) e) := by
    refine ⟨hholds.s, ?_, ?_, ⟨hv.codeLength_ge, hv.codeLength_le⟩, halphabet, hletters, hplain⟩
    · rw [Agent.locked, hholds.s]
      rfl
    · rw [hholds.privileged]
      exact hallowed
  obtain rfl : (s.loaded (-1) e).nextCard = card :=
    Num.ext_toNat ((loaded_nextCard hfresh.codeMask hnext).trans hcard.symm)
  rcases hupdate : handled crypto cfg job.me a w1 (.number .updateLatest
    (s.loaded (-1) e).nextCard) with ⟨r, w2⟩
  -- the action prints one card and sends its number
  have haction := @actionPrint_text crypto cfg job.me w1 w2 a _ job.host job.spec r hprints hspec
    hhost (by have := e.latestCard_lt_nextCard; omega) hupdate
  have hload : job.loaded crypto cfg u w = (some (0, a), w1) := hrun
  have hupdated : job.updated crypto cfg u w (s.loaded (-1) e).nextCard =
      (queryStatus (agentReply a r), w2) := by
    simp only [PrintJob.updated, PrintJob.updateWorld, hload, hmeanwhile, Option.elim]
    rw [show runCalls cfg [] w1 = w1 from rfl, hupdate]
  -- nothing is done meanwhile, so the job is the action after the load
  have hjob : job.run crypto cfg u w =
      actionPrint crypto cfg job.me .text job.host job.spec id a w1 := by
    obtain ⟨hdr, hsent, hstatus⟩ := hanswer
    have hread : agentReply (job.started u) (some (0, a)) = .ok hdr := by
      simp only [agentReply, hsent, List.drop_left]
    obtain ⟨status, int, int2, num, str⟩ := hdr
    obtain rfl : status = 0 := hstatus
    have hload' : handled crypto cfg job.me (Agent.start u job.privileged) w (.plain .stateLoad) =
        (some (0, a), w1) := hrun
    have hread' : agentReply (Agent.start u job.privileged) (some (0, a)) =
        .ok ⟨0, int, int2, num, str⟩ := hread
    unfold PrintJob.run printAction
    simp only
    rw [hload']
    simp only
    rw [hread', hmode, hmeanwhile]
    rfl
  rw [hjob, hupdated]
  exact haction

end

/-- No card of `next` is printed twice, as long as the latest card has a
successor and every action before another one is recorded or has been used up:
a text action is recorded if the current card is at most one behind the latest
and the update is stored, a LaTeX action never. -/
theorem nextUnprinted_of_recorded (crypto : Crypto) (cfg : Cfg) (u : CString)
    (steps : List PrintStep) (w : World) (hfor : ∀ step ∈ steps, step.For u)
    (hnext : ∀ pre job post, steps = pre ++ .print job :: post →
      HasNext cfg u (runPrints crypto cfg u pre w))
    (hprinted : ∀ pre job mid job' post,
      steps = pre ++ .print job :: (mid ++ .print job' :: post) →
        job.Recorded crypto cfg u (runPrints crypto cfg u pre w) ∨
          job.UsedUp cfg u (runPrints crypto cfg u pre w)
            (runPrints crypto cfg u (pre ++ .print job :: mid) w)) :
    NextUnprinted crypto cfg u steps w := by
  intro pre job post hsteps hret
  have hjob : (PrintStep.print job).For u := hfor _ (by rw [hsteps]; simp)
  obtain ⟨-, hend⟩ := job.run_end crypto cfg u (runPrints crypto cfg u pre w) hjob.1
  -- an action that returns success printed the cards from the next on
  rcases hend.cards (hnext pre job post hsteps) with ⟨herror, -⟩ | ⟨e, he, hcards⟩
  · exact absurd hret herror
  constructor
  · intro e' he'
    obtain rfl := Option.some.inj (he.symm.trans he')
    exact hcards
  · intro pre1 job1 mid hpre card1 hcard1 card hcard
    subst hpre
    have hsteps' : steps = pre1 ++ .print job1 :: (mid ++ .print job :: post) := by
      rw [hsteps]
      simp
    have hjob1 : (PrintStep.print job1).For u := hfor _ (by rw [hsteps']; simp)
    have hmid : ∀ step ∈ mid, step.For u := fun step hstep =>
      hfor step (by rw [hsteps']; simp [hstep])
    have hroom1 := hnext pre1 job1 _ hsteps'
    obtain ⟨hw1, hend1⟩ := job1.run_end crypto cfg u (runPrints crypto cfg u pre1 w) hjob1.1
    have hge := (mem_cards hcard hcards).1
    rcases hprinted pre1 job1 mid job post hsteps' with hrecorded | hused
    · -- the latest card has stayed at least that of the earlier action
      have hguarded := hend1.recorded hw1 hjob1.2 hroom1 hrecorded hcard1
      have hlatest := (@runPrints_guarded crypto cfg u _ _ mid hmid hguarded).lookup e
      rw [runPrints_append] at he
      have := hlatest he
      have := e.latestCard_lt_nextCard
      omega
    · -- the counter is past the cards that were printed
      rcases hend1.cards hroom1 with ⟨-, hnone⟩ | ⟨e1, he1, hcards1⟩
      · rw [hnone] at hcard1
        exact absurd hcard1 List.not_mem_nil
      · have := hused e1 e he1 he
        have := (mem_cards hcard1 hcards1).2
        have := e.currentCard_le_nextCard
        omega

/-- An action of the user `alice` with the argument `next`. -/
def nextJob (mode : PrintMode) : PrintJob := ⟨0, false, mode, "host".toList, "next".toList, []⟩

theorem nextJob_for (mode : PrintMode) : (PrintStep.print (nextJob mode)).For alice :=
  ⟨.inl rfl, by simp [nextJob]⟩

/-- The state of alice with its first card printed. -/
def printedAlice : State := aliceState.setLatestCard (numI 1)

/-- The world in which that is stored. -/
def printedWorld : World :=
  ((nextJob .text).updated plainCrypto configRoot alice aliceWorld (numI 1)).2

theorem printedWorld_loads :
    dbLookup (printedWorld.file (dbLoc configRoot alice)) alice = some printedAlice.entry ∧
      RepliesOk plainCrypto configRoot 0 ((nextJob .text).started alice) printedWorld
        (.plain .stateLoad) := by
  decide +kernel

/-- A key on the default alphabet is printed. -/
theorem nextJob_run {w : World} {s : State}
    (hreply : RepliesOk plainCrypto configRoot 0 ((nextJob .text).started alice) w
      (.plain .stateLoad))
    (hlook : dbLookup (w.file (dbLoc configRoot alice)) alice = some s.entry)
    (halphabet : s.entry.alphabet = aliceState.entry.alphabet)
    (hnext : s.entry.latestCard.toNat + 1 < 2 ^ 128) {card : Num}
    (hcard : card.toNat = s.entry.nextCard) :
    ((nextJob .text).run plainCrypto configRoot alice w).cards = [card] ∧
      ((nextJob .text).run plainCrypto configRoot alice w).world =
        ((nextJob .text).updated plainCrypto configRoot alice w card).2 := by
  obtain ⟨hcards, hworld, -⟩ := @PrintJob.run_text plainCrypto configRoot alice w (nextJob .text) s.entry (.inl rfl) rfl rfl
    (by decide) hreply hlook (.inr (by decide)) (by rw [halphabet]; decide +kernel)
    (by rw [halphabet]; decide +kernel) (by rw [halphabet]; decide +kernel) hnext card hcard
  exact ⟨hcards, hworld⟩

/-- A new key: the first card is printed, and then the second. -/
theorem nextUnprinted_of_recorded_alice :
    NextUnprinted plainCrypto configRoot alice
        [.print (nextJob .text), .print (nextJob .text)] aliceWorld ∧
      ((nextJob .text).run plainCrypto configRoot alice aliceWorld).cards = [numI 1] ∧
      ((nextJob .text).run plainCrypto configRoot alice
        (runPrints plainCrypto configRoot alice [.print (nextJob .text)] aliceWorld)).cards =
          [numI 2] := by
  obtain ⟨hprinted, hreply⟩ := printedWorld_loads
  obtain ⟨hfirst, hworld⟩ := @nextJob_run aliceWorld aliceState (by decide +kernel)
    aliceWorld_loads.1 rfl (by decide +kernel) (numI 1) (by decide +kernel)
  obtain ⟨hsecond, -⟩ := @nextJob_run printedWorld printedAlice hreply hprinted rfl (by decide +kernel)
    (numI 2) (by decide +kernel)
  have hafter : runPrints plainCrypto configRoot alice [.print (nextJob .text)] aliceWorld =
      printedWorld := by
    rw [runPrints_print, runPrints_nil, hworld, printedWorld]
  refine ⟨?_, hfirst, by rw [hafter]; exact hsecond⟩
  refine nextUnprinted_of_recorded plainCrypto configRoot alice _ aliceWorld ?_ ?_ ?_
  · intro step hstep
    simp only [List.mem_cons, List.not_mem_nil, or_false] at hstep
    rcases hstep with rfl | rfl <;> exact nextJob_for .text
  · intro pre job post hsteps e he
    rcases pre with _ | ⟨step, pre⟩
    · rw [Option.some.inj (he.symm.trans aliceWorld_loads.1)]
      decide +kernel
    · rcases pre with _ | ⟨step', pre⟩
      · simp only [List.cons_append, List.nil_append, List.cons.injEq] at hsteps
        rw [← hsteps.1, hafter] at he
        rw [Option.some.inj (he.symm.trans hprinted)]
        decide +kernel
      · simp at hsteps
  · intro pre job mid job' post hsteps
    left
    rcases pre with _ | ⟨step, pre⟩
    swap
    · have hlen := congrArg List.length hsteps
      simp only [List.length_append, List.length_cons, List.length_nil] at hlen
      omega
    simp only [List.nil_append, List.cons.injEq, PrintStep.print.injEq] at hsteps
    obtain ⟨rfl, -⟩ := hsteps
    obtain ⟨hw, -⟩ := (nextJob .text).run_end plainCrypto configRoot alice aliceWorld (.inl rfl)
    have hserves := World.boot_serves aliceWorld.file 0
    have hfree := @stateLoad_free plainCrypto configRoot 0 (Agent.start alice false)
      aliceState.entry (.plain .stateLoad) aliceWorld hserves (fun _ => rfl) (by decide) rfl
      rfl      aliceWorld_loads.1
    obtain ⟨hlook, hcopy⟩ := aliceWorld_loads
    have hupdate : (nextJob .text).updateWorld plainCrypto configRoot alice aliceWorld =
        ((nextJob .text).loaded plainCrypto configRoot alice aliceWorld).2 := rfl
    rw [runPrints_nil]
    constructor
    · decide
    · intro e he
      obtain rfl := Option.some.inj (he.symm.trans hlook)
      decide +kernel
    · rw [hupdate]
      exact hw.serves hserves
    · rw [hupdate]
      exact hfree
    · rw [hupdate, hw.file]
      exact ⟨_, hlook, aliceEntry_allowed.range⟩
    · rw [hupdate, hw.file]
      exact hcopy

/-! ## Skipping a card -/

section

variable {crypto : Crypto} {cfg : Cfg} {me : Pid} {u : CString} {w : World} {job : PrintJob}
  {a : Agent} {s : State} {item : Num}

/-- A card that is neither behind the latest nor behind the current one is refused. -/
theorem updateLatest_refused (hs : a.s = some s) (hl : a.locked = false)
    (h : latestOk s item = false) :
    handled crypto cfg me a w (.number .updateLatest item) =
      (some (agentOk, a.sendReply agentErrReqArg), w) := by
  have hany : a.s.any (fun s => !latestOk s item) = true := by
    rw [hs, Option.any_some, h]
    rfl
  have hexecute : requestExecute crypto cfg a (.number .updateLatest item) =
      .ret (agentOk, a.sendReply agentErrReqArg) := if_pos hany
  unfold handled
  rw [requestHandle_allowed hl rfl, hexecute]
  rfl

theorem latestOk_current (h : s.latestCard.toNat + 1 < s.currentCard.toNat) :
    latestOk s s.currentCard = false := by
  rw [← Bool.not_eq_true, latestOk_iff]
  rintro ⟨-, hequal⟩
  have hlt := s.currentCard.toNat_lt
  have hne {card : Num} (hcard : card.toNat ≠ s.currentCard.toNat) :
      numCmp card s.currentCard ≠ 0 := by
    intro hzero
    rcases lt_or_gt_of_ne hcard with hlt' | hgt
    · exact absurd ((numCmp_neg_iff _ _).mpr hlt') (by omega)
    · exact absurd ((numCmp_pos_iff _ _).mpr hgt) (by omega)
  rcases hequal with h' | h'
  · refine hne ?_ h'
    rw [toNat_succ, Nat.mod_eq_of_lt (by omega)]
    omega
  · refine hne ?_ h'
    rw [toNat_succ]
    omega

/-- A text action that skips a card prints the current one, and leaves the
database as it is. -/
theorem PrintJob.run_skipping {e : Entry} (hspec : NextSpec job.spec) (hmode : job.mode = .text)
    (hmeanwhile : job.meanwhile = []) (hhost : '\x00' ∉ job.host)
    (hreply : RepliesOk crypto cfg job.me (job.started u) w (.plain .stateLoad))
    (hlook : dbLookup (w.file (dbLoc cfg u)) u = some e)
    (hallowed : job.privileged = true ∨ cfg.passcodePrint ≠ configDisallow)
    (halphabet : pppVerifyAlphabet cfg e.alphabet.toInt = 0)
    (hletters : pppAlphabet cfg e.alphabet.toNat ≠ [])
    (hplain : '\x00' ∉ pppAlphabet cfg e.alphabet.toNat)
    (hskip : e.latestCard.toNat + 1 < e.currentCard.toNat) :
    (job.run crypto cfg u w).ret = 0 ∧ (job.run crypto cfg u w).cards = [e.currentCard] ∧
      (job.run crypto cfg u w).world = (job.loaded crypto cfg u w).2 := by
  obtain ⟨hcards, hworld, hret⟩ := PrintJob.run_text hspec hmode hmeanwhile hhost hreply hlook
    hallowed halphabet hletters hplain (by have := e.currentCard.toNat_lt; omega)
    (show e.currentCard.toNat = e.nextCard by rw [Entry.nextCard, if_pos hskip])
  obtain ⟨a, w1, hrun, hanswer⟩ := hreply
  obtain ⟨⟨-, hdef, s, e', hfresh, hlook', -, hholds⟩, -⟩ :=
    stateLoad_loads (Agent.start_ok u job.privileged) rfl hrun hanswer
  obtain rfl := Option.some.inj (hlook.symm.trans hlook')
  have hcurrent := @loaded_currentCard s (-1) e hfresh.codeMask
  have hunlocked : a.locked = false := by
    rw [Agent.locked, hholds.s]
    rfl
  have hskip' : (s.loaded (-1) e).latestCard.toNat + 1 < (s.loaded (-1) e).currentCard.toNat := by
    rw [hcurrent]
    exact hskip
  have hrefused := @updateLatest_refused crypto cfg job.me w1 a _ e.currentCard hholds.s hunlocked
    (hcurrent ▸ latestOk_current hskip')
  have hload : job.loaded crypto cfg u w = (some (0, a), w1) := hrun
  have hupdated : job.updated crypto cfg u w e.currentCard = (agentErrReqArg, w1) := by
    simp only [PrintJob.updated, PrintJob.updateWorld, hload, hmeanwhile, Option.elim]
    rw [show runCalls cfg [] w1 = w1 from rfl, hrefused,
      @agentReply_sendReply a a hunlocked rfl agentOk agentErrReqArg]
    rfl
  rw [hupdated] at hworld hret
  exact ⟨hret (.inl rfl), hcards, hworld.trans (congrArg Prod.snd hload).symm⟩

end

/-- A key whose current card is the third, of which none was printed. -/
def aheadAlice : State := aliceState.setCounter (numI 140)

def aheadWorld : World :=
  World.boot (fun db => if db = .global then some (dbEntryText aheadAlice) else none)
    fun _ => .good

/-- A text action that skips a card is not recorded: the next one prints the
same card again. -/
theorem skipped_card_printed_twice :
    ¬ ∀ (crypto : Crypto) (cfg : Cfg) (u : CString) (steps : List PrintStep) (w : World),
      (∀ step ∈ steps, step.For u) → (∀ pre job post, steps = pre ++ .print job :: post →
        HasNext cfg u (runPrints crypto cfg u pre w)) →
      NextUnprinted crypto cfg u steps w := by
  intro h
  have hskip : aheadAlice.entry.latestCard.toNat + 1 < aheadAlice.entry.currentCard.toNat := by
    decide +kernel
  have hrun {w : World} (hreply : RepliesOk plainCrypto configRoot 0
        ((nextJob .text).started alice) w (.plain .stateLoad))
      (hlook : dbLookup (w.file (dbLoc configRoot alice)) alice = some aheadAlice.entry) :=
    @PrintJob.run_skipping plainCrypto configRoot alice w (nextJob .text) aheadAlice.entry
      (.inl rfl) rfl rfl (by decide) hreply hlook (.inr (by decide)) (by decide +kernel)
      (by decide +kernel) (by decide +kernel) hskip
  have hlook : dbLookup (aheadWorld.file (dbLoc configRoot alice)) alice =
      some aheadAlice.entry := by decide +kernel
  have hlook' : dbLookup (((nextJob .text).loaded plainCrypto configRoot alice aheadWorld).2.file
      (dbLoc configRoot alice)) alice = some aheadAlice.entry := by decide +kernel
  obtain ⟨-, hcards, hworld⟩ := @hrun aheadWorld (by decide +kernel) hlook
  obtain ⟨hret', hcards', -⟩ := @hrun ((nextJob .text).loaded plainCrypto configRoot alice
    aheadWorld).2 (by decide +kernel) hlook'
  have hafter : runPrints plainCrypto configRoot alice [.print (nextJob .text)] aheadWorld =
      ((nextJob .text).loaded plainCrypto configRoot alice aheadWorld).2 := by
    rw [runPrints_print, runPrints_nil, hworld]
  have htwice := h plainCrypto configRoot alice [.print (nextJob .text), .print (nextJob .text)]
    aheadWorld ?_ ?_ [.print (nextJob .text)] (nextJob .text) [] rfl
  · rw [hafter] at htwice
    have hfirst : aheadAlice.entry.currentCard ∈ ((nextJob .text).run plainCrypto configRoot alice
        (runPrints plainCrypto configRoot alice [] aheadWorld)).cards := by
      rw [runPrints_nil, hcards]
      exact List.mem_cons_self
    have hagain : aheadAlice.entry.currentCard ∈ ((nextJob .text).run plainCrypto configRoot alice
        ((nextJob .text).loaded plainCrypto configRoot alice aheadWorld).2).cards := by
      rw [hcards']
      exact List.mem_cons_self
    exact lt_irrefl _ ((htwice hret').2 [] (nextJob .text) [] rfl _ hfirst _ hagain)
  · intro step hstep
    simp only [List.mem_cons, List.not_mem_nil, or_false, or_self] at hstep
    rw [hstep]
    exact nextJob_for .text
  · intro pre job post hsteps e he
    have hentry : e = aheadAlice.entry := by
      rcases pre with _ | ⟨step, pre⟩
      · exact Option.some.inj (he.symm.trans hlook)
      · rcases pre with _ | ⟨step', pre⟩
        · simp only [List.cons_append, List.nil_append, List.cons.injEq] at hsteps
          rw [← hsteps.1, hafter] at he
          exact Option.some.inj (he.symm.trans hlook')
        · simp at hsteps
    rw [hentry]
    decide +kernel

end Otpasswd
