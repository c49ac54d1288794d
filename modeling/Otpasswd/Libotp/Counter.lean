import Otpasswd.Libotp.PppLock

/-!
# Otpasswd.Libotp.Counter — moving the counter

`ppp_increment` and `ppp_skip` read the stored entry under the lock, move its
counter and store it. Here the two sides are put together: what becomes of
the database and what is left in memory, on every path.

Main results: `counterOp_spec`, `pppIncrement_moves` and `pppSkip_moves`.
-/

namespace Otpasswd

open CText Prog

/-- What an operation on the counter that reports an error leaves in memory.
Only a line of the user that is malformed leaves more. -/
inductive Tried (file : Option (List Char)) (s : State) (fin : State → State) : State → Prop where
  | kept (lock : ℤ) : Tried file s fin (s.setLock lock)
  | loaded (lock : ℤ) (e : Entry) (hlook : dbLookup file s.username = some e) :
      Tried file s fin (s.loaded lock e)
  | moved (lock : ℤ) (e : Entry) (hlook : dbLookup file s.username = some e)
      (hnew : s.newKey = false) : Tried file s fin (fin (s.loaded lock e))
  | malformed (s' : State) (h : ¬ Intact file s.username) : Tried file s fin s'

/-- How `ppp_increment` and `ppp_skip` end: with the databases as they were,
or with the counter of the stored entry moved by `change`. -/
inductive CounterEnd (cfg : Cfg) (s : State) (last : State → ℕ) (change : Entry → Entry)
    (fin : State → State) (w : World) (r : Option (ℕ × State)) (w' : World) : Prop where
  | attempted (hkeeps : w'.Keeps w) (hr : ∀ ret s', r = some (ret, s') →
      ret ≠ 0 ∧ Tried (w.file (dbLoc cfg s.username)) s fin s')
  | moved (fd : Fd) (e : Entry) (hnew : s.newKey = false) (hallowed : e.Allowed cfg)
      (hlast : last (s.loaded fd.val e) = 0)
      (h : Replaced cfg s.username e (change e) w w')
      (hr : ∀ ret s', r = some (ret, s') →
        (w.AllOk → ret = 0) ∧ ∃ lock, s' = fin (s.loaded lock e))

section

variable {cfg : Cfg} {me : Pid} {s : State} {w : World}

theorem counterOp_spec (hs : s.codeMask = codeMask) {last : State → ℕ}
    {upd : State → State} {fin : State → State → State} {change : Entry → Entry}
    {mem : State → State} (hupd : ∀ s, (upd s).lock = s.lock ∧ (upd s).newKey = s.newKey ∧
      (upd s).username = s.username)
    (hentry : ∀ fd e, (upd (s.loaded fd e)).entry = change e)
    (hfin : ∀ fd fd' e, fin (s.loaded fd e) ((upd (s.loaded fd e)).setLock fd') =
      mem (s.loaded fd' e)) :
    wp (Sys.exec me) (counterOp cfg s last upd fin) (CounterEnd cfg s last change mem w) w := by
  refine wp_seq (pppStateLoad_spec me cfg s w) (fun w1 h1 => .attempted h1.1 (by simp)) ?_
  rintro ⟨ret, s1⟩ w1 ⟨hw1, -, hend⟩
  have hend : LoadLockEnd (w.file (dbLoc cfg s.username)) s ret s1 := hend ret s1 rfl
  have hfailed {ret : ℕ} {s1 : State} {w2 : World} (hw : w2.Keeps w) (hret : ret ≠ 0)
      (htried : Tried (w.file (dbLoc cfg s.username)) s mem s1) :
      CounterEnd cfg s last change mem w (some (ret, s1)) w2 := by
    refine .attempted hw ?_
    rintro _ _ ⟨rfl, rfl⟩
    exact ⟨hret, htried⟩
  -- what the load under the lock may have brought into memory
  cases hend with
  | exhausted lock e hlook hrange hl =>
    simp only
    rw [if_pos hrange]
    exact hfailed hw1 hrange (.loaded lock e hlook)
  | failed _ _ hret h hl hkept =>
    simp only
    rw [if_pos hret.1]
    refine hfailed hw1 hret.1 ?_
    by_cases hintact : Intact (w.file (dbLoc cfg s.username)) s.username
    · obtain ⟨lock, rfl⟩ := hkept hintact
      exact .kept lock
    · exact .malformed s1 hintact
  | loaded fd e _ hlook hrange =>
    have hv := dbLookup_valid hlook
    have hcodes : 0 < (s.loaded fd.val e).codesOnCard :=
      calculate_codesOnCard hv.codeLength_ge hv.codeLength_le
    have hfd : (0 : ℤ) < fd.val := by
      have := fd.property
      omega
    have hverdict := @verdict_eq_zero cfg s fd.val e (last (s.loaded fd.val e)) hs hv
    simp only
    rw [if_neg (by simp), pppStateVerify_eq hcodes, ret_bind]
    change wp _ (if verdict cfg (s.loaded fd.val e) (last (s.loaded fd.val e)) ≠ 0
      then _ else _) _ _
    by_cases hret : verdict cfg (s.loaded fd.val e) (last (s.loaded fd.val e)) = 0
    swap
    · -- a check fails: only the lock is given back
      rw [if_pos hret]
      have hrelease := @pppStateRelease_ends cfg (w1.uid me) False (s.loaded fd.val e) True
        (fun _ => trivial) { unlock := true } (by simp) rfl rfl (by simp) (.inr hfd)
      refine wp_seq (wp_and (wp_quiet (@pppStateRelease_sat _ _ w.AllOk _) Sys.Calm.quiet hw1)
        (wp_ends hrelease)) (fun w2 h2 => .attempted h2.1.1 (by simp)) ?_
      rintro ⟨ret2, s2⟩ w2 ⟨⟨hw2, -⟩, h2⟩
      obtain ⟨lock, h, -⟩ := h2 _ rfl
      simp only at h
      subst h
      refine hfailed hw2 hret ?_
      rw [loaded_setLock]
      exact .loaded lock e hlook
    · rw [if_neg (not_not.mpr hret)]
      obtain ⟨hallowed, hlast⟩ := hverdict.mp hret
      obtain ⟨hlk, hkey, huser⟩ := hupd (s.loaded fd.val e)
      have hlocked : 0 < (upd (s.loaded fd.val e)).lock := by
        rw [hlk]
        exact hfd
      -- a pending key would be stored with the lock held, and its assertion fails
      cases hnew : s.newKey with
      | true =>
        rw [pppStateRelease_newKey (hkey.trans hnew) hlocked]
        exact (wp_stop _).mpr (.attempted hw1 (by simp))
      | false =>
        have hrelease := @pppStateRelease_ends cfg (w1.uid me) False (upd (s.loaded fd.val e)) True
          (fun _ => trivial) { store := true, unlock := true } (by simp) rfl rfl
          (fun _ => hkey.trans hnew) (.inr hlocked)
        have hreplaced {w2 : World} (h : Updated cfg (upd (s.loaded fd.val e)) false w w2) :
            Replaced cfg s.username e (change e) w w2 := ⟨hlook, _, huser, hentry _ e, h⟩
        -- the changed state is stored and the lock given back
        refine wp_seq (wp_and (pppStateRelease_spec me cfg (upd (s.loaded fd.val e))
          { store := true, unlock := true } rfl w1) (wp_ends hrelease)) ?_ ?_
        · rintro w2 ⟨h2, -⟩
          cases h2.of_keeps hw1 with
          | stored h hr => exact .moved fd e hnew hallowed hlast (hreplaced h) (by simp)
          | kept h hr => exact .attempted h (by simp)
        · rintro ⟨ret2, s2⟩ w2 ⟨h2, hs2⟩
          obtain ⟨lock, h, -⟩ := hs2 _ rfl
          simp only at h
          subst h
          simp only
          rw [hfin]
          cases h2.of_keeps hw1 with
          | kept h hr => exact hfailed h (hr _ _ rfl).1 (.moved lock e hlook hnew)
          | stored h hr =>
            refine .moved fd e hnew hallowed hlast (hreplaced h) ?_
            rintro _ _ ⟨rfl, rfl⟩
            exact ⟨(hr _ _ rfl).1, lock, rfl⟩

/-- `ppp_increment`: the memory keeps the counter before the increment. -/
theorem pppIncrement_moves (hs : s.codeMask = codeMask) :
    wp (Sys.exec me) (pppIncrement cfg s) (CounterEnd cfg s (fun _ => 0)
      (fun e => { e with counter := numAdd e.counter (numI 1) }) id w) w := by
  rw [pppIncrement_eq]
  refine counterOp_spec hs (fun _ => ⟨rfl, rfl, rfl⟩) (fun fd e => ?_) fun fd fd' e => ?_
  · rw [setCounter_entry, loaded_entry, loaded_counter]
  · rw [id, ← loaded_setLock s fd e fd']
    generalize s.loaded fd e = s1
    rfl

/-- `ppp_skip`: the memory has the cards of the counter before. -/
theorem pppSkip_moves (hsalt : s.saltMask = saltMask)
    (hs : s.codeMask = codeMask) (skipTo : Num) :
    wp (Sys.exec me) (pppSkip cfg s skipTo) (CounterEnd cfg s
      (fun s => if 0 ≤ numCmp skipTo s.maxCode then pppErrorRange else 0)
      (fun e => { e with counter := skipTo }) (State.setCounter skipTo) w) w := by
  have hskip (s' : State) (h1 : s'.saltMask = saltMask) (h2 : s'.codeMask = codeMask) :
      skipCounter skipTo s' = s'.setCounter skipTo := by
    have hadd : pppAddSalt (s'.setCounter skipTo) skipTo = skipTo :=
      pppAddSalt_self (s'.setCounter skipTo) h1 h2
    rw [skipCounter, hadd, setCounter_setCounter]
  rw [pppSkip_eq]
  refine counterOp_spec hs (fun _ => ⟨rfl, rfl, rfl⟩) (fun fd e => ?_) fun fd fd' e => ?_
  · rw [hskip (s.loaded fd e) hsalt hs, setCounter_entry, loaded_entry]
  · rw [hskip (s.loaded fd e) hsalt hs, ← loaded_setLock s fd e fd']
    generalize s.loaded fd e = s1
    rfl

end

end Otpasswd
