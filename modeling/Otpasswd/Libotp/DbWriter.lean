import Otpasswd.Libotp.DbMap

/-!
# Otpasswd.Libotp.DbWriter — what the writer accepts the reader accepts

`db_file_store` checks nothing but the length of the printed line, and of that
only whether it is exactly the size of the buffer. The reader has a limit on
each field.

Main results: `storeReadable_iff` (a store can be read back exactly when the
user's name fits a field, or the store is refused) and
`long_name_not_readable`.
-/

namespace Otpasswd

open CText Prog

/-- The line that a store of `s` writes. -/
def writtenLine (s : State) : List Char := (dbGenerateUserEntry s stateEntrySize).2

/-- What a store of `s` that reports success has to leave: a complete line, an
entry that loads with the same fields, and the entries of all others. -/
def StoreReadable (cfg : Cfg) (s : State) (text : List Char) : Prop :=
  ∀ (me : Pid) (w : World) (s' : State), w.file (dbLoc cfg s.username) = some text →
    ((dbFileStore cfg s false).run (Sys.exec me) w).1 = some (0, s') →
    let file := ((dbFileStore cfg s false).run (Sys.exec me) w).2.file
    ((writtenLine s).getLast? = some '\n' ∧ (writtenLine s).length < stateEntrySize) ∧
      LoadsAs cfg s.username (some s.entry) file ∧
      ∀ v e, v ≠ s.username → dbLookup (w.file (dbLoc cfg v)) v = some e →
        LoadsAs cfg v (some e) file

theorem writtenLine_eq (s : State) : writtenLine s = storeBody (dbEntryText s) false := rfl

/-- With a name that fits a field, everything can be read back. -/
theorem storeReadable_of_readable {cfg : Cfg} {s : State} {text : List Char}
    (hu : ReadableName s.username) (hv : s.entry.Valid) (hwf : WellFormed text) :
    StoreReadable cfg s text := by
  intro me w s' hfile hret file
  obtain ⟨l, htext, hl, -, hbody⟩ := dbEntryText_line s hu hv
  obtain ⟨ls, rfl, hls⟩ := hwf
  have hlines : file = Function.update w.file (dbLoc cfg s.username)
      (some (unlines (Keyed.replace lineUser s.username.val (newLine s false) ls))) := by
    obtain ⟨hend, -⟩ := dbFileStore_spec me cfg s false w
    rw [hret] at hend
    cases hend with
    | stored new hnew hfile' _ _ =>
      rw [hfile] at hnew
      change ((dbFileStore cfg s false).run (Sys.exec me) w).2.file = _
      rw [hfile', hnew.unlines_eq (by simp) hu hv hls]
    | kept _ hr => simp at hr
  refine ⟨⟨?_, ?_⟩, ?_, ?_⟩
  · rw [writtenLine_eq, hbody]
    simp
  · rw [writtenLine_eq, hbody, List.length_append]
    have := hl.length_le
    simp only [List.length_singleton, stateEntrySize]
    omega
  · refine loadsAs_some ?_
    rw [hlines, Function.update_self, dbLookup_replace hu hv hls, if_pos rfl]
    rfl
  · intro v e hne he
    refine loadsAs_some ?_
    rw [hlines]
    by_cases hloc : dbLoc cfg v = dbLoc cfg s.username
    · rw [hloc, hfile] at he
      rw [hloc, Function.update_self, dbLookup_replace hu hv hls, if_neg hne]
      exact he
    · rw [Function.update_of_ne hloc]
      exact he

/-- A line of exactly the size of the buffer is refused. -/
theorem storeReadable_of_refused {cfg : Cfg} {s : State} {text : List Char}
    (h : (dbEntryText s).length = stateEntrySize) : StoreReadable cfg s text := by
  intro me w s' hfile hret
  exfalso
  obtain ⟨hend, -⟩ := dbFileStore_spec me cfg s false w
  rw [hret] at hend
  cases hend with
  | stored new hnew _ _ _ => exact hnew.generates rfl h
  | kept _ hr => simp at hr

/-! ## Stores that cannot be read back -/

/-- A store with a name of more than eighty characters that is not refused
succeeds, and cannot be read back. -/
theorem not_storeReadable {cfg : Cfg} (hdb : cfg.db = .global ∨ cfg.db = .user) {s : State}
    (hn : s.named = true) (hlock : s.lock = -1 ∨ 0 < s.lock) {text : List Char} (hwf : WellFormed text)
    (hlong : stateMaxFieldSize < s.username.val.length)
    (hlen : (dbEntryText s).length ≠ stateEntrySize) : ¬ StoreReadable cfg s text := by
  intro h
  let w := World.boot (fun _ => some text) fun _ => Outcome.serving cfg
  have hs : w.Serves cfg 0 := World.serving_serves hdb _ 0
  obtain ⟨ls, rfl, hls⟩ := hwf
  have hcopy : CopyableFile s.username (w.file (dbLoc cfg s.username)) :=
    ⟨_, rfl, copyable_unlines hls _⟩
  obtain ⟨hr, hdone⟩ := dbFileStore_ok hs hn (fun _ => rfl) hlock hcopy fun _ => hlen
  obtain ⟨-, hload, -⟩ := h 0 w s rfl hr
  -- the load that should succeed
  let w2 : World := { w with file := ((dbFileStore cfg s false).run (Sys.exec 0) w).2.file }
  have hans := hload 0 w2 (s.setLock (-1)) ⟨hs.outcomes, hs.runs⟩ (fun _ => rfl) rfl rfl hn rfl
  obtain ⟨-, -, hend⟩ := dbFileLoad_spec 0 cfg (s.setLock (-1)) w2
  simp only at hans
  generalize (s.setLock (-1)).load s.entry = s2 at hans
  cases hend 0 s2 hans with
  | locked e hlocked he =>
    exact absurd (dbLookup_readable he).length_le (Nat.not_le.mpr hlong)
  | unlocked e hlocked he =>
    exact absurd (dbLookup_readable he).length_le (Nat.not_le.mpr hlong)
  | failed _ _ hne => exact hne.1 rfl

/-- A store into a well-formed database can be read back exactly when the name
fits a field of the reader, or the store is refused. -/
theorem storeReadable_iff (cfg : Cfg) (hdb : cfg.db = .global ∨ cfg.db = .user) (s : State)
    (hn : s.named = true) (hname : Plain s.username.val) (hv : s.entry.Valid)
    (hlock : s.lock = -1 ∨ 0 < s.lock) (text : List Char) (hwf : WellFormed text) :
    StoreReadable cfg s text ↔
      s.username.val.length ≤ stateMaxFieldSize ∨ (dbEntryText s).length = stateEntrySize := by
  constructor
  · intro h
    by_contra hnot
    obtain ⟨hlong, hlen⟩ := not_or.mp hnot
    exact not_storeReadable hdb hn hlock hwf (Nat.not_le.mp hlong) hlen h
  · rintro (hshort | hlen)
    · exact storeReadable_of_readable ⟨hname, hshort⟩ hv hwf
    · exact storeReadable_of_refused hlen

theorem storeReadable_iff_alice :
    StoreReadable configRoot aliceState (unlines sharedLines) ↔
      aliceState.username.val.length ≤ stateMaxFieldSize ∨
        (dbEntryText aliceState).length = stateEntrySize :=
  storeReadable_iff configRoot (.inl rfl) aliceState rfl alice_readable.plain aliceEntry_valid
    (.inl rfl) (unlines sharedLines) ⟨sharedLines, rfl, sharedLines_ok⟩

/-- A name of eighty-one letters. -/
def longName : CString := ⟨List.replicate 81 'a', by decide⟩

/-- Its entry is written to an empty database with success, and is lost. -/
theorem long_name_not_readable :
    ¬ ∀ (cfg : Cfg) (s : State) (text : List Char), Plain s.username.val → s.entry.Valid →
      WellFormed text → StoreReadable cfg s text := by
  intro h
  let s := State.initial configRoot Outcome.good.junk longName
  have hread := h configRoot s [] ⟨by decide, by decide⟩ (by decide +kernel)
    ⟨[], rfl, by simp, by simp, List.Pairwise.nil⟩
  exact not_storeReadable (.inl rfl) rfl (.inl rfl) ⟨[], rfl, by simp, by simp, List.Pairwise.nil⟩
    (by decide) (by decide +kernel) hread

end Otpasswd
