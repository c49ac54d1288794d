import Otpasswd.Libotp.PppSpec

/-!
# Otpasswd.Libotp.StoreCode — what a store returns

The codes of a store tell its errors apart from every result of
`ppp_set_spass`, and a store that reports an error left the databases as they
were.

Main result: `stateStore_end`.
-/

namespace Otpasswd

open CText Prog

/-- What a store returns: zero, the small codes of its own, or an error of the
database. -/
def StoreCode (retval : ℕ) : Prop := retval ≤ 2 ∨ 1000 ≤ retval

section

variable {cfg : Cfg} {s : State} {me : Pid} {w : World}

theorem dbFindLoop_code (u : CString) (n : ℕ) (f : InFile) (out : Option OutFile) :
    StoreCode (dbFindLoop u n f out).ret := by
  induction n generalizing f out with
  | zero => exact .inr (by simp [dbFindLoop])
  | succ n ih =>
    rw [dbFindLoop]
    repeat' split
    all_goals first | exact ih _ _ | (right; simp; done) | (left; simp)

theorem dbFileCopy_code {remove : Bool} {inp : Option InFile} {out out' : OutFile} {retval : ℕ}
    (h : dbFileCopy s remove inp out = (some retval, out')) : StoreCode retval := by
  -- the lines in front, the lines behind, the line of the user
  have huntil (inp : Option InFile) (out : OutFile) :
      StoreCode (dbCopyUntil s.username inp out).1 := by
    rcases inp with _ | f
    · exact .inl (by simp [dbCopyUntil])
    · exact dbFindLoop_code _ _ _ _
  have hrest (inp : Option InFile) (out out' : OutFile) (retval : ℕ)
      (h : dbCopyRest s.username inp out = (some retval, out')) : StoreCode retval := by
    rcases inp with _ | f
    · simp [dbCopyRest] at h
    · simp only [dbCopyRest] at h
      split_ifs at h
      · obtain ⟨h, -⟩ := Prod.mk.inj h
        exact Option.some.inj h ▸ .inl (by simp)
      · obtain ⟨h, -⟩ := Prod.mk.inj h
        exact Option.some.inj h ▸ .inr (by simp)
      · simp at h
  have hwrite (out out' : OutFile) (retval : ℕ)
      (h : dbWriteEntry s remove out = (some retval, out')) : StoreCode retval := by
    unfold dbWriteEntry at h
    by_cases hremove : remove = true
    · simp [hremove] at h
    rw [if_neg hremove] at h
    simp only at h
    have hgen : (dbGenerateUserEntry s stateEntrySize).1 ≤ 2 := by
      unfold dbGenerateUserEntry
      simp only
      split_ifs <;> omega
    by_cases hret : (dbGenerateUserEntry s stateEntrySize).1 ≠ 0
    · rw [if_pos hret] at h
      obtain ⟨h, -⟩ := Prod.mk.inj h
      exact Option.some.inj h ▸ .inl hgen
    · rw [if_neg hret] at h
      rcases hputs : fputs (dbGenerateUserEntry s stateEntrySize).2 out with ⟨_ | _, out2⟩
      · rw [hputs] at h
        obtain ⟨h, -⟩ := Prod.mk.inj h
        exact Option.some.inj h ▸ .inr (by simp)
      · rw [hputs] at h
        simp at h
  unfold dbFileCopy at h
  simp only at h
  split_ifs at h with herr
  · obtain ⟨h, -⟩ := Prod.mk.inj h
    rw [← Option.some.inj h]
    exact huntil _ _
  rcases hw : dbWriteEntry s remove (dbCopyUntil s.username inp out).2.2 with ⟨_ | ret, out2⟩
  · rw [hw] at h
    exact hrest _ _ _ _ h
  · rw [hw] at h
    obtain ⟨h, -⟩ := Prod.mk.inj h
    rw [← Option.some.inj h]
    exact hwrite _ _ _ hw

/-- The programs below return one of these codes. -/
abbrev Codes (p : SysM ℕ) : Prop := p.Yields StoreCode

theorem yields_call {α : Type} {c : Sys} {f : c.Reply → SysM α} {V : α → Prop}
    (h : ∀ x, (f x).Yields V) : (sys c >>= f).Yields V :=
  ⟨trivial, fun x _ => h x⟩

theorem storeCode_zero : StoreCode 0 := .inl (by simp)

theorem storeCode_ioError : StoreCode stateIoError := .inr (by simp)

theorem dbFileCleanup_code (db : DbLoc) {retval : ℕ} (h : StoreCode retval) (out : Option OutFile) :
    Codes (dbFileCleanup cfg db retval out) := by
  have hrest : Codes
      (if retval = 0 then do
        if ← sys (.renameTmp db) then
          let _ ← dbFilePermissions cfg db none
          return 0
        else return stateIoError
      else do
        sys (.unlinkTmp db)
        return retval) := by
    by_cases hret : retval = 0
    · rw [if_pos hret]
      refine yields_call fun renamed => ?_
      cases renamed with
      | true => exact Sat.bind (V := fun _ => True) (sat_true _) fun _ _ => storeCode_zero
      | false => exact storeCode_ioError
    · rw [if_neg hret]
      exact yields_call fun _ => h
  rcases out with _ | out
  · exact hrest
  · exact yields_call fun _ => hrest

theorem dbFileWrite_code (db : DbLoc) (remove : Bool) : Codes (dbFileWrite cfg db s remove) := by
  have htmp (inp : Option InFile) :
      Codes (dbFileWrite.dbFileWriteTmp cfg db s remove inp) := by
    refine yields_call fun out => ?_
    rcases out with _ | out
    · exact dbFileCleanup_code db storeCode_ioError _
    refine Sat.bind (V := fun _ => True) (sat_true _) fun owned _ => ?_
    by_cases howned : owned = false
    · rw [if_pos howned]
      exact dbFileCleanup_code db storeCode_ioError _
    rw [if_neg howned]
    rcases hcopy : dbFileCopy s remove inp out with ⟨_ | retval, out'⟩
    · refine yields_call fun closed => ?_
      by_cases hclosed : closed = true
      · rw [if_pos hclosed]
        exact dbFileCleanup_code db storeCode_zero _
      · rw [if_neg hclosed]
        exact dbFileCleanup_code db storeCode_ioError _
    · exact dbFileCleanup_code db (dbFileCopy_code hcopy) _
  unfold dbFileWrite
  by_cases hunlink : cfg.db = .user ∧ remove = true
  · rw [if_pos hunlink]
    refine yields_call fun unlinked => ?_
    cases unlinked with
    | true => exact storeCode_zero
    | false => exact storeCode_ioError
  rw [if_neg hunlink]
  refine yields_call fun inp => ?_
  rcases inp with _ | _ | f
  · exact htmp _
  · exact dbFileCleanup_code db storeCode_ioError _
  · exact htmp _

theorem dbPath_code (u : Option CString) (home : Bool) :
    (dbPath cfg u home).Yields (fun r => ∀ retval, r = .error retval → StoreCode retval) := by
  have herror {retval : ℕ} (h : 1000 ≤ retval) (retval' : ℕ)
      (h' : (.error retval : Except ℕ DbLoc) = .error retval') : StoreCode retval' :=
    Except.error.inj h' ▸ .inr h
  have hnames (home : Bool) (db : DbLoc) :
      (dbPathNames home db).Yields (fun r => ∀ retval, r = .error retval → StoreCode retval) := by
    refine yields_call fun lck => yields_call fun tmp => ?_
    split_ifs
    · exact herror (by simp)
    · trivial
    · exact fun _ h => nomatch h
  unfold dbPath
  split
  · refine yields_call fun known => ?_
    by_cases hknown : known = false
    · rw [if_pos hknown]
      exact herror (by simp)
    rw [if_neg hknown]
    refine yields_call fun dir => ?_
    by_cases hdir : dir = false
    · rw [if_pos hdir]
      exact herror (by simp)
    rw [if_neg hdir]
    cases home with
    | false => exact hnames _ _
    | true =>
      refine yields_call fun dir2 => ?_
      split_ifs
      · exact herror (by simp)
      · exact hnames _ _
  · refine yields_call fun dir => ?_
    split_ifs
    · exact herror (by simp)
    · exact hnames _ _
  · trivial

/-- A store of a state that keeps its key reports one of these codes. -/
theorem stateStore_code (hkey : s.newKey = false) (remove : Bool) :
    (stateStore cfg s remove).Yields (fun r => StoreCode r.1) := by
  refine (sat_assert_bind _).mpr ⟨fun _ => ?_, fun _ => trivial⟩
  rw [if_neg (by simp [hkey])]
  by_cases hlock : s.lock ≤ 0
  · rw [if_pos hlock]
    exact .inl (by simp)
  rw [if_neg hlock]
  have hstore : (dbFileStore cfg (s.setNewKey false) remove).Yields (fun r => StoreCode r.1) := by
    refine (dbPath_code _ _).bind fun r hr => ?_
    rcases r with retval | db
    · exact hr retval rfl
    have hlock' : ¬ (s.setNewKey false).lock ≤ 0 := hlock
    simp only
    rw [if_neg hlock']
    exact (dbFileWrite_code db remove).bind fun _ h => h
  unfold stateWrite
  split
  · exact hstore
  · exact hstore
  · trivial

/-- How the store of a state that is not created ends. -/
theorem stateStore_end (hlock : s.newKey = true → 0 < s.lock) :
    wp (Sys.exec me) (stateStore cfg s false) (fun r w' => ∀ retval s', r = some (retval, s') →
      StoreCode retval ∧ (∃ lock, s' = s.setLock lock) ∧
        (retval = 0 ∧ Updated cfg s false w w' ∨ retval ≠ 0 ∧ w'.Keeps w)) w := by
  cases hkey : s.newKey with
  | true =>
    have habort : stateStore cfg s false = .abort := by
      simp only [stateStore, assert, hkey, if_true, not_le.mpr (hlock hkey), if_false,
        Bool.false_eq_true, and_false, not_false_eq_true, ret_bind, stop_bind]
    rw [habort]
    exact (wp_stop _).mpr (by simp)
  | false =>
    have hself : s.setNewKey false = s := by
      obtain ⟨⟩ := s
      subst hkey
      rfl
    have hcode : wp (Sys.exec me) (stateStore cfg s false)
        (fun r _ => ∀ retval s', r = some (retval, s') → StoreCode retval) w :=
      wp_mono (wp_of_sat (I := fun _ => True) (fun _ _ _ _ => trivial) (fun _ _ _ _ => trivial)
        (stateStore_code hkey false) trivial) fun _ _ h retval s' hr => h.2.2 _ hr
    have hend : wp (Sys.exec me) (stateStore cfg s false) (fun r w' => ∀ retval s',
        r = some (retval, s') → (∃ lock, s' = s.setLock lock) ∧
          (retval = 0 ∧ Updated cfg s false w w' ∨ retval ≠ 0 ∧ w'.Keeps w)) w := by
      rw [stateStore, wp_assert_bind, if_pos (by simp), if_neg (by simp [hkey])]
      split_ifs
      · rintro _ _ ⟨rfl, rfl⟩
        exact ⟨⟨s.lock, s.setLock_self.symm⟩, .inr ⟨by simp, .refl w⟩⟩
      have hstore : wp (Sys.exec me) (dbFileStore cfg s false) (fun r w' => ∀ retval s',
          r = some (retval, s') → (∃ lock, s' = s.setLock lock) ∧
            (retval = 0 ∧ Updated cfg s false w w' ∨ retval ≠ 0 ∧ w'.Keeps w)) w := by
        refine wp_mono (dbFileStore_spec me cfg s false w) ?_
        rintro r w' ⟨hend, hs⟩ retval s' rfl
        obtain ⟨lock, hs', -⟩ := hs retval s' rfl
        refine ⟨⟨lock, hs'⟩, ?_⟩
        cases hend with
        | stored new hnew hfile hio hr => exact .inl ⟨hr retval rfl, ⟨new, hnew, hfile⟩, hio⟩
        | kept hkeeps hr => exact .inr ⟨fun h => hr (by rw [h]; rfl), hkeeps⟩
      rw [hself]
      unfold stateWrite
      split
      · exact hstore
      · exact hstore
      · exact (wp_stop _).mpr (by simp)
    exact wp_mono (wp_and hcode hend) fun _ _ h retval s' hr => ⟨h.1 retval s' hr, h.2 retval s' hr⟩

end

end Otpasswd
