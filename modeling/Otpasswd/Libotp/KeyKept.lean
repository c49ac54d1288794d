import Otpasswd.Libotp.Budget
import Otpasswd.Libotp.Concurrent

/-!
# Otpasswd.Libotp.KeyKept — what logins leave of a key

A login moves the counter of an entry, counts its failures and notes the time
of a message. The key of the entry, with its alphabet, code length, flags and
salt, stays what it is, and so do the keys of all other users, whatever calls
fail on the way.

Main result: `afterLogins_keepsKey`.
-/

namespace Otpasswd

open CText Prog

/-- The entries have the same passcodes. -/
structure Entry.SameKey (e e' : Entry) : Prop where
  sequenceKey : e'.sequenceKey = e.sequenceKey
  alphabet : e'.alphabet = e.alphabet
  codeLength : e'.codeLength = e.codeLength
  flags : e'.flags = e.flags
  salt : e.Salted → numAnd e'.counter saltMask = numAnd e.counter saltMask

/-- Whatever is found for `u` in `w'` has the key of what was found in `w`. -/
def KeepsKey (cfg : Cfg) (u : CString) (w w' : World) : Prop :=
  ∀ e', dbLookup (w'.file (dbLoc cfg u)) u = some e' →
    ∃ e, dbLookup (w.file (dbLoc cfg u)) u = some e ∧ e.SameKey e'

/-! ## One operation -/

section

variable {cfg : Cfg} {u v : CString} {e e' e'' : Entry} {w w' w'' : World}

theorem Entry.SameKey.refl (e : Entry) : e.SameKey e := ⟨rfl, rfl, rfl, rfl, fun _ => rfl⟩

theorem Entry.SameKey.of_counter (h1 : e'.sequenceKey = e.sequenceKey)
    (h2 : e'.alphabet = e.alphabet) (h3 : e'.codeLength = e.codeLength) (h4 : e'.flags = e.flags)
    (h5 : e'.counter = e.counter) : e.SameKey e' := ⟨h1, h2, h3, h4, fun _ => by rw [h5]⟩

theorem Entry.SameKey.salted (h : e.SameKey e') (hs : e.Salted) : e'.Salted := by
  unfold Entry.Salted at hs ⊢
  rwa [h.flags]

theorem Entry.SameKey.trans (h : e.SameKey e') (h' : e'.SameKey e'') : e.SameKey e'' where
  sequenceKey := h'.sequenceKey.trans h.sequenceKey
  alphabet := h'.alphabet.trans h.alphabet
  codeLength := h'.codeLength.trans h.codeLength
  flags := h'.flags.trans h.flags
  salt hs := (h'.salt (h.salted hs)).trans (h.salt hs)

theorem Entry.Advanced.sameKey {k : ℕ} (h : e.Advanced k e') : e.SameKey e' where
  sequenceKey := by rw [h.rest]
  alphabet := by rw [h.rest]
  codeLength := by rw [h.rest]
  flags := h.flags
  salt := h.salt

theorem World.Keeps.keepsKey (h : w'.Keeps w) : KeepsKey cfg u w w' := by
  intro e he
  rw [h.file] at he
  exact ⟨e, he, .refl e⟩

theorem KeepsKey.trans (h : KeepsKey cfg u w w') (h' : KeepsKey cfg u w' w'') :
    KeepsKey cfg u w w'' := by
  intro e'' he''
  obtain ⟨e', he', hsame'⟩ := h' e'' he''
  obtain ⟨e, he, hsame⟩ := h e' he'
  exact ⟨e, he, hsame.trans hsame'⟩

/-- A store of the same key, of this user or of another one. -/
theorem Replaced.keepsKey (h : Replaced cfg v e e' w w') (hv : e'.Valid) (hsame : e.SameKey e') :
    KeepsKey cfg u w w' := by
  intro x hx
  by_cases huv : u = v
  · subst huv
    obtain rfl := h.lookup hv hx
    exact ⟨e, h.before, hsame⟩
  · obtain ⟨hbefore, s, rfl, rfl, ⟨new, hnew, hfile⟩, -⟩ := h
    by_cases hdb : dbLoc cfg u = dbLoc cfg s.username
    · rw [hfile, hdb, Function.update_self] at hx
      have hbefore' := hnew.lookup_other (dbLookup_readable hbefore) hv huv hx
      rw [← hdb] at hbefore'
      exact ⟨x, hbefore', .refl x⟩
    · rw [hfile, Function.update_of_ne hdb] at hx
      exact ⟨x, hx, .refl x⟩

/-- The change leaves the key. -/
structure Entry.OnlyCounts (e e' : Entry) : Prop where
  same : e.SameKey e'
  valid : e.Valid → e'.Valid

theorem pppUpdate_keepsKey (i : Pid) (named : Bool) (change : State → SysM State)
    (hchange : ∀ s uid ok, Meets cfg uid true ok Sys.Calm
      (fun s' => s'.username = s.username ∧ s.entry.OnlyCounts s'.entry) (change s)) (w : World) :
    wp (Sys.exec i) (pppUpdate cfg (namePtr named v) change >>= fun _ => (pure none : SysM (Option Num)))
      (fun _ w' => KeepsKey cfg u w w') w := by
  have hend (r : Option ℕ) (w' : World) (h : w'.Keeps w ∧ r ≠ some 0 ∨
      ∃ e e', e.OnlyCounts e' ∧ Replaced cfg v e e' w w' ∧
        (w.AllOk → ∀ code, r = some code → code = 0)) : KeepsKey cfg u w w' := by
    rcases h with ⟨hkeeps, -⟩ | ⟨e, e', hcounts, hreplaced, -⟩
    · exact hkeeps.keepsKey
    · exact hreplaced.keepsKey (hcounts.valid (dbLookup_valid hreplaced.before)) hcounts.same
  exact wp_seq (pppUpdate_spec i cfg named v change _ hchange w) (hend none) fun code w' => hend _ w'

/-- What a login does to the entry of one user leaves every key. -/
theorem LoginOp.keepsKey {op : LoginOp} (h : op.For v) (i : Pid) (w : World) :
    wp (Sys.exec i) (op.prog cfg) (fun _ w' => KeepsKey cfg u w w') w := by
  cases op with
  | increment s =>
    obtain ⟨hs, -⟩ := h
    have hend (r : Option (ℕ × State)) (w' : World)
        (hop : OpEnd cfg s (·.Allowed cfg) (fun e => { e with counter := numAdd e.counter (numI 1) })
          id w r w') : KeepsKey cfg u w w' := by
      cases hop with
      | kept hkeeps => exact hkeeps.keepsKey
      | replaced fd e hallowed hreplaced =>
        have hadv := (Entry.Advanced.refl e).succ hallowed.range
          (by rw [Nat.add_zero]; exact hallowed.range.2)
        exact hreplaced.keepsKey (hadv.valid (dbLookup_valid hreplaced.before)) hadv.sameKey
    exact wp_seq (pppIncrement_spec i cfg s hs.codeMask w) (fun w' => hend none w')
      fun r w' => hend _ w'
  | failures s zero =>
    obtain rfl : s.username = v := h
    refine pppUpdate_keepsKey i s.named _ (fun s uid ok => ?_) w
    cases zero with
    | true => exact ⟨rfl, .of_counter rfl rfl rfl rfl rfl, fun h => ⟨h.1, h.2, h.3, h.4, h.5⟩⟩
    | false => exact ⟨rfl, .of_counter rfl rfl rfl rfl rfl, fun h => ⟨h.1, h.2, h.3, h.4, h.5⟩⟩
  | oobTime s =>
    obtain rfl : s.username = v := h
    refine pppUpdate_keepsKey i s.named _ (fun s uid ok => ?_) w
    refine (sat_issue_bind _).mpr ⟨⟨trivial, id⟩, fun time _ => ?_⟩
    exact ⟨rfl, .of_counter rfl rfl rfl rfl rfl, fun h => ⟨h.1, h.2, h.3, h.4, h.5⟩⟩

end

/-! ## Any number of them -/

/-- An operation of a login, and whose it is. -/
structure LoginCall where
  me : Pid
  user : CString
  op : LoginOp

/-- The world after the logins have made their calls, one after the other. -/
def afterLogins (cfg : Cfg) : List LoginCall → World → World
  | [], w => w
  | c :: cs, w => afterLogins cfg cs ((c.op.prog cfg).run (Sys.exec c.me) w).2

theorem afterLogins_keepsKey (cfg : Cfg) (u : CString) (calls : List LoginCall) (w : World)
    (hcalls : ∀ c ∈ calls, c.op.For c.user) : KeepsKey cfg u w (afterLogins cfg calls w) := by
  induction calls generalizing w with
  | nil => exact World.Keeps.keepsKey (.refl w)
  | cons c cs ih =>
    obtain ⟨hc, hcs⟩ := List.forall_mem_cons.mp hcalls
    exact KeepsKey.trans (LoginOp.keepsKey hc c.me w) (ih _ hcs)

end Otpasswd
