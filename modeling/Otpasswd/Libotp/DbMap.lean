import Otpasswd.Lib.Keyed
import Otpasswd.Libotp.PppOk

/-!
# Otpasswd.Libotp.DbMap — the database as a map from users to entries

A well-formed database is a list of lines keyed by their first field. On such
a database `db_file_store` is `Keyed.replace`, and `db_file_load` finds the
user's line and decodes it.

Main results: `dbFile_refines_map` (any sequence of stores and removals does
to the file what it does to a finite map) and `Stored.wellFormed`.
-/

namespace Otpasswd

open CText Prog

/-! ## Lines of a database -/

/-- The lines of a well-formed database. -/
structure DbLines (ls : List (List Char)) : Prop where
  ok : ∀ l ∈ ls, LineOk l
  parses : ∀ l ∈ ls, (lineEntry (l ++ ['\n'])).isSome = true
  distinct : Keyed.Distinct lineUser ls

/-- Every line is complete and can be parsed, and no two are of one user. -/
def WellFormed (text : List Char) : Prop := ∃ ls, text = unlines ls ∧ DbLines ls

/-- A lookup finds the user's line and decodes it. -/
theorem dbLookup_unlines {ls : List (List Char)} (h : ∀ l ∈ ls, LineOk l) (u : CString) :
    dbLookup (some (unlines ls)) u =
      (Keyed.find? lineUser u.val ls).bind fun l => lineEntry (l ++ ['\n']) := by
  cases hf : Keyed.find? lineUser u.val ls with
  | none =>
    have hnone := Keyed.find?_eq_none_iff.mp hf
    exact dbLookup_absent fun l hl => ⟨h l hl, hnone l hl⟩
  | some l =>
    obtain ⟨pre, post, rfl, hpre, hl⟩ := Keyed.exists_split hf
    have hpassed : ∀ l ∈ pre, Passed u l := fun l' hl' =>
      ⟨h l' (List.mem_append_left _ hl'), hpre l' hl'⟩
    have htext : unlines (pre ++ l :: post) = unlines pre ++ (l ++ '\n' :: unlines post) := by
      rw [unlines_append]
      simp
    rw [htext, dbLookup_line hpassed (h l (by simp)) hl]
    rfl

theorem copyable_unlines {ls : List (List Char)} (h : DbLines ls) (u : CString) :
    Copyable u (unlines ls) := by
  cases hf : Keyed.find? lineUser u.val ls with
  | none =>
    have hnone := Keyed.find?_eq_none_iff.mp hf
    exact .absent ls fun l hl => ⟨h.ok l hl, hnone l hl⟩
  | some l =>
    obtain ⟨pre, post, rfl, hpre, hl⟩ := Keyed.exists_split hf
    have htext : unlines (pre ++ l :: post) = unlines pre ++ (l ++ '\n' :: unlines post) := by
      rw [unlines_append]
      simp
    have hlast := (List.pairwise_cons.mp (List.pairwise_append.mp h.distinct).2.1).1
    rw [htext]
    refine .once pre l post (fun l' hl' => ⟨h.ok l' ?_, hpre l' hl'⟩) (h.ok l (by simp)) hl
      fun l' hl' => ⟨h.ok l' ?_, hlast l' hl' u.val hl⟩
    · exact List.mem_append_left _ hl'
    · exact List.mem_append_right _ (List.mem_cons_of_mem _ hl')

/-! ## What a store does to the lines -/

/-- The line a store puts in place of the user's. -/
def newLine (s : State) (remove : Bool) : Option (List Char) :=
  if remove then none else some (joinSep ':' (dbEntryFields s).toList)

theorem newLine_spec {s : State} (hu : ReadableName s.username) (hv : s.entry.Valid)
    (remove : Bool) {l : List Char} (h : l ∈ newLine s remove) :
    LineOk l ∧ lineUser l = some s.username.val ∧ lineEntry (l ++ ['\n']) = some s.entry := by
  obtain ⟨l', htext, hl, hlu, -⟩ := dbEntryText_line s hu hv
  have hline : dbEntryText s = joinSep ':' (dbEntryFields s).toList ++ ['\n'] := rfl
  have hsame : l' = l := by
    cases remove with
    | true => simp [newLine] at h
    | false =>
      have hl' : joinSep ':' (dbEntryFields s).toList = l := by simpa [newLine] using h
      rw [hline, hl'] at htext
      exact (List.append_cancel_right htext).symm
  rw [← hsame]
  exact ⟨hl, hlu, by rw [← htext]; exact lineEntry_dbEntryText s hu.plain hu.length_le hv⟩

theorem storeBody_eq {s : State} (hu : ReadableName s.username) (hv : s.entry.Valid)
    (remove : Bool) : storeBody (dbEntryText s) remove = unlines (newLine s remove).toList := by
  cases remove with
  | true => rfl
  | false =>
    obtain ⟨l, htext, -, -, hbody⟩ := dbEntryText_line s hu hv
    have hline : dbEntryText s = joinSep ':' (dbEntryFields s).toList ++ ['\n'] := rfl
    rw [hbody, ← htext, hline]
    simp [newLine]

/-- A store into a database without a line of the user appends. -/
theorem Stored.of_absent {cfg : Cfg} {u : CString} {line : List Char} {remove : Bool} {ok : Prop}
    {new : Option (List Char)} {pre : List (List Char)} (hcfg : remove = true → cfg.db ≠ .user)
    (hpre : ∀ l ∈ pre, Passed u l) (h : Stored cfg u line remove ok (some (unlines pre)) new) :
    new = some (unlines pre ++ storeBody line remove) := by
  have hnl : ∀ l ∈ pre, '\n' ∉ l := fun l hl => (hpre l hl).1.newline
  -- no line of the user can be found in it
  have hfound {pre' : List (List Char)} {l rest : List Char} (hpre' : ∀ l ∈ pre', Passed u l)
      (hl : LineOk l) (hu : lineUser l = some u.val)
      (htext : unlines pre = unlines pre' ++ (l ++ '\n' :: rest)) : False := by
    obtain ⟨post, rfl, -⟩ := unlines_line_split (fun l hl => (hpre' l hl).1.newline) hl.newline hnl
      htext
    exact (hpre l (by simp)).2 hu
  generalize hold : unlines pre = old at h
  cases h with
  | unlinked _ hdb hremove => exact absurd hdb (hcfg hremove)
  | appended _ pre' _ hpre' heq => rw [← show old = unlines pre' from heq]
  | replaced pre' l post _ hpre' hl hu _ => exact (hfound hpre' hl hu hold).elim
  | duplicate pre' l mid l' rest _ _ hpre' hl hu _ _ _ _ _ => exact (hfound hpre' hl hu hold).elim

/-- A store into a database with one line of the user replaces that line. -/
theorem Stored.of_once {cfg : Cfg} {u : CString} {line : List Char} {remove : Bool} {ok : Prop}
    {new : Option (List Char)} {pre post : List (List Char)} {l : List Char}
    (hcfg : remove = true → cfg.db ≠ .user) (hpre : ∀ l ∈ pre, Passed u l) (hl : LineOk l)
    (hu : lineUser l = some u.val) (hpost : ∀ l ∈ post, Passed u l)
    (h : Stored cfg u line remove ok (some (unlines pre ++ (l ++ '\n' :: unlines post))) new) :
    new = some (unlines pre ++ storeBody line remove ++ unlines post) := by
  have htext : unlines (pre ++ l :: post) = unlines pre ++ (l ++ '\n' :: unlines post) := by
    rw [unlines_append]
    simp
  have hnl : ∀ x ∈ pre ++ l :: post, '\n' ∉ x := by
    intro x hx
    rcases List.mem_append.mp hx with hx | hx
    · exact (hpre x hx).1.newline
    · rcases List.mem_cons.mp hx with rfl | hx
      · exact hl.newline
      · exact (hpost x hx).1.newline
  -- the first line of the user is `l`
  have hsplit {pre' : List (List Char)} {l' rest : List Char} (hpre' : ∀ l ∈ pre', Passed u l)
      (hl' : LineOk l') (hu' : lineUser l' = some u.val)
      (heq : unlines (pre ++ l :: post) = unlines pre' ++ (l' ++ '\n' :: rest)) :
      pre = pre' ∧ rest = unlines post := by
    obtain ⟨post', hls, hrest⟩ := unlines_line_split (fun l hl => (hpre' l hl).1.newline)
      hl'.newline hnl heq
    obtain ⟨h1, -, h3⟩ := Keyed.split_unique (fun l hl => (hpre l hl).2) hu
      (fun l hl => (hpre' l hl).2) hu' hls
    exact ⟨h1, by rw [hrest, h3]⟩
  rw [← htext] at h
  generalize hold : unlines (pre ++ l :: post) = old at h
  cases h with
  | unlinked _ hdb hremove => exact absurd hdb (hcfg hremove)
  | appended _ pre' _ hpre' heq =>
    obtain ⟨post', hls, hrest⟩ := @unlines_split _ _ [] (fun l hl => (hpre' l hl).1.newline) hnl (by
      rw [hold, List.append_nil]
      exact heq)
    obtain rfl : post' = [] := by
      cases post' with
      | nil => rfl
      | cons l post => simp at hrest
    have hmem : l ∈ pre' := by
      rw [List.append_nil] at hls
      rw [← hls]
      simp
    exact absurd hu (hpre' l hmem).2
  | replaced pre' l' post' _ hpre' hl' hu' _ =>
    obtain ⟨rfl, hrest⟩ := hsplit hpre' hl' hu' hold
    rw [hrest]
  | duplicate pre' l' mid l'' rest _ _ hpre' hl' hu' hmid hl'' hu'' _ _ =>
    obtain ⟨-, hrest⟩ := hsplit hpre' hl' hu' hold
    obtain ⟨post', rfl, -⟩ := unlines_line_split (fun l hl => (hmid l hl).1.newline) hl''.newline
      (fun l hl => (hpost l hl).1.newline) hrest.symm
    exact absurd hu'' (hpost l'' (by simp)).2

/-- On a well-formed database a store replaces the user's line. -/
theorem Stored.unlines_eq {cfg : Cfg} {s : State} {remove : Bool} {ok : Prop}
    {ls : List (List Char)} {new : Option (List Char)} (hcfg : remove = true → cfg.db ≠ .user)
    (hu : ReadableName s.username) (hv : s.entry.Valid) (hls : DbLines ls)
    (h : Stored cfg s.username (dbEntryText s) remove ok (some (unlines ls)) new) :
    new = some (unlines (Keyed.replace lineUser s.username.val (newLine s remove) ls)) := by
  have hbody := storeBody_eq hu hv remove
  cases hf : Keyed.find? lineUser s.username.val ls with
  | none =>
    have hnone := Keyed.find?_eq_none_iff.mp hf
    rw [h.of_absent hcfg fun l hl => ⟨hls.ok l hl, hnone l hl⟩, Keyed.replace_absent hnone, hbody,
      unlines_append]
  | some l =>
    obtain ⟨pre, post, rfl, hpre, hl⟩ := Keyed.exists_split hf
    have hlast := (List.pairwise_cons.mp (List.pairwise_append.mp hls.distinct).2.1).1
    have htext : unlines (pre ++ l :: post) = unlines pre ++ (l ++ '\n' :: unlines post) := by
      rw [unlines_append]
      simp
    rw [htext] at h
    rw [h.of_once hcfg (fun x hx => ⟨hls.ok x (List.mem_append_left _ hx), hpre x hx⟩)
      (hls.ok l (by simp)) hl fun x hx =>
        ⟨hls.ok x (List.mem_append_right _ (List.mem_cons_of_mem _ hx)), hlast x hx _ hl⟩,
      Keyed.replace_split hpre hl, hbody, unlines_append, unlines_append]

/-- It stays well-formed. -/
theorem DbLines.replace {s : State} {remove : Bool} {ls : List (List Char)}
    (hu : ReadableName s.username) (hv : s.entry.Valid) (hls : DbLines ls) :
    DbLines (Keyed.replace lineUser s.username.val (newLine s remove) ls) := by
  constructor
  · intro l hl
    rcases Keyed.mem_replace hl with hl | hl
    · exact hls.ok l hl
    · exact (newLine_spec hu hv remove hl).1
  · intro l hl
    rcases Keyed.mem_replace hl with hl | hl
    · exact hls.parses l hl
    · rw [(newLine_spec hu hv remove hl).2.2]
      rfl
  · exact hls.distinct.replace fun l hl => (newLine_spec hu hv remove hl).2.1

/-- Looking up after a store is looking up in a map. -/
theorem dbLookup_replace {s : State} {remove : Bool} {ls : List (List Char)}
    (hu : ReadableName s.username) (hv : s.entry.Valid) (hls : DbLines ls) (v : CString) :
    dbLookup (some (unlines (Keyed.replace lineUser s.username.val (newLine s remove) ls))) v =
      if v = s.username then (if remove then none else some s.entry)
      else dbLookup (some (unlines ls)) v := by
  have hnew : ∀ l ∈ newLine s remove, lineUser l = some s.username.val := fun l hl =>
    (newLine_spec hu hv remove hl).2.1
  rw [dbLookup_unlines (hls.replace hu hv).ok, dbLookup_unlines hls.ok]
  by_cases hvu : v = s.username
  · rw [if_pos hvu, hvu, Keyed.find?_replace_self hls.distinct hnew]
    cases remove with
    | true => rfl
    | false => exact (newLine_spec hu hv false rfl).2.2
  · have hne : v.val ≠ s.username.val := fun h => hvu (Subtype.ext h)
    rw [if_neg hvu, Keyed.find?_replace_ne hne hnew]

/-! ## What a load answers -/

/-- In every world with these databases that serves the library, and in which
the lock is free, a load for `u` answers with the entry, or that there is
none. -/
def LoadsAs (cfg : Cfg) (u : CString) (e : Option Entry) (file : DbLoc → Option (List Char)) :
    Prop :=
  ∀ (me : Pid) (w : World) (s : State), w.Serves cfg me → w.Free → w.file = file →
    s.username = u → s.named = true → s.lock = -1 →
    ((dbFileLoad cfg s).run (Sys.exec me) w).1 =
      some (match e with
        | some e => (0, s.load e)
        | none => (stateNoUserEntry, s))

theorem loadsAs_some {cfg : Cfg} {u : CString} {e : Entry} {file : DbLoc → Option (List Char)}
    (h : dbLookup (file (dbLoc cfg u)) u = some e) : LoadsAs cfg u (some e) file := by
  rintro me w s hs hfree rfl rfl hn hlock
  have hload := dbFileLoad_ok hs hn hfree hlock h
  exact hload.1

/-- A search that passes all lines answers that the user has no entry. -/
theorem dbFileRead_absent {me : Pid} {cfg : Cfg} {db : DbLoc} {s : State} {w : World}
    {pre : List (List Char)} (hs : w.Serves cfg me) (hfile : w.file db = some (unlines pre))
    (hpre : ∀ l ∈ pre, Passed s.username l) :
    wp (Sys.exec me) (dbFileRead db s)
      (fun r w' => r = some (stateNoUserEntry, s) ∧ w'.Rests w) w := by
  have hsv : w.next.Serves cfg := hs.outcomes w.tick
  have hopen : (Sys.exec me (.fopenDb db) w).1 = .opened ⟨unlines pre, false, none⟩ := by
    simp only [Sys.exec, hfile, hsv.ok, hsv.fault, if_true]
  have hfind := dbFindUserEntry_absent hpre none
  simp only [Option.map_none] at hfind
  rw [dbFileRead, wp_issue_bind, hopen]
  simp only [hfind]
  rw [if_pos (by simp)]
  exact ⟨rfl, exec_rests (c := .fopenDb db) trivial me w⟩

theorem loadsAs_none {cfg : Cfg} {u : CString} {pre : List (List Char)}
    {file : DbLoc → Option (List Char)} (hfile : file (dbLoc cfg u) = some (unlines pre))
    (hpre : ∀ l ∈ pre, Passed u l) : LoadsAs cfg u none file := by
  rintro me w s hs hfree rfl rfl hn hlock
  have hpresent : w.present (dbLoc cfg s.username) := by simp [World.present, hfile]
  have hload : wp (Sys.exec me) (dbFileLoad cfg s)
      (fun r w' => r = some (stateNoUserEntry, s) ∧ w'.Keeps w ∧ w'.Free) w := by
    refine dbFileLoad_unlocked id (fun _ _ => rfl) rfl hs hn hfree hlock hpresent fun fd w' hw' => ?_
    refine dbFileRead_absent (hw'.serves hs) ?_ hpre
    rw [hw'.file]
    exact hfile
  exact hload.1

/-- On a well-formed database a load answers with the lookup. -/
theorem loadsAs_lookup {cfg : Cfg} {u : CString} {ls : List (List Char)}
    {file : DbLoc → Option (List Char)} (hls : DbLines ls)
    (hfile : file (dbLoc cfg u) = some (unlines ls)) :
    LoadsAs cfg u (dbLookup (some (unlines ls)) u) file := by
  cases he : dbLookup (some (unlines ls)) u with
  | some e => exact loadsAs_some (by rw [hfile]; exact he)
  | none =>
    rw [dbLookup_unlines hls.ok] at he
    cases hf : Keyed.find? lineUser u.val ls with
    | none =>
      have hnone := Keyed.find?_eq_none_iff.mp hf
      exact loadsAs_none hfile fun l hl => ⟨hls.ok l hl, hnone l hl⟩
    | some l =>
      obtain ⟨pre, post, rfl, -, -⟩ := Keyed.exists_split hf
      have hparses := hls.parses l (by simp)
      rw [hf, Option.bind_some] at he
      simp [he] at hparses

/-! ## Runs of stores -/

/-- A call of `db_file_store` by process `me`. -/
structure StoreCall where
  me : Pid
  s : State
  remove : Bool

/-- A state the database can hold, of a user whose name it can hold. -/
structure StoreCall.Storable (x : StoreCall) : Prop where
  named : x.s.named = true
  name : ReadableName x.s.username
  valid : x.s.entry.Valid
  lock : x.s.lock = -1 ∨ 0 < x.s.lock

/-- The world after a sequence of stores. -/
def runStores (cfg : Cfg) : List StoreCall → World → World
  | [], w => w
  | x :: xs, w => runStores cfg xs ((dbFileStore cfg x.s x.remove).run (Sys.exec x.me) w).2

/-- The database as a map: who has which entry. -/
abbrev DbMap := CString → Option Entry

/-- What the stores mean for the map. -/
def applyStores : List StoreCall → DbMap → DbMap
  | [], m => m
  | x :: xs, m =>
    applyStores xs fun u =>
      if u = x.s.username then (if x.remove then none else some x.s.entry) else m u

/-- One store, without failing calls, on a well-formed global database. -/
theorem dbFileStore_lines {cfg : Cfg} (hcfg : cfg.db = .global) {x : StoreCall}
    (hx : x.Storable) {w : World} (hs : w.Serves cfg x.me) (hfree : w.Free)
    {ls : List (List Char)} (hls : DbLines ls) (hfile : w.file .global = some (unlines ls)) :
    wp (Sys.exec x.me) (dbFileStore cfg x.s x.remove)
      (fun _ w' => w'.Done w ∧ w'.file .global =
        some (unlines (Keyed.replace lineUser x.s.username.val (newLine x.s x.remove) ls))) w := by
  have hloc (u : CString) : dbLoc cfg u = .global := by simp [dbLoc, hcfg]
  have hcopy : CopyableFile x.s.username (w.file (dbLoc cfg x.s.username)) := by
    rw [hloc]
    exact ⟨_, hfile, copyable_unlines hls _⟩
  have hok := dbFileStore_ok hs hx.named hfree hx.lock hcopy
    (@generates_of_readable x.s x.remove hx.name)
  refine wp_mono (wp_and hok (dbFileStore_spec x.me cfg x.s x.remove w)) ?_
  rintro r w' ⟨⟨rfl, hdone⟩, hend, -⟩
  refine ⟨hdone, ?_⟩
  rw [hloc] at hend
  cases hend with
  | stored new hnew hfile' _ _ =>
    rw [hfile] at hnew
    rw [hfile', Function.update_self]
    exact hnew.unlines_eq (by simp [hcfg]) hx.name hx.valid hls
  | kept _ hr => simp at hr

/-- The global database refines a map: after any run of stores and removals it
is well-formed, and every load answers what the map says. -/
theorem dbFile_refines_map (cfg : Cfg) (hcfg : cfg.db = .global) (calls : List StoreCall)
    (hcalls : ∀ x ∈ calls, x.Storable) (w : World) (hs : ∀ x ∈ calls, w.Serves cfg x.me)
    (hfree : w.Free) (text : List Char) (hfile : w.file .global = some text)
    (hwf : WellFormed text) :
    (∃ text', (runStores cfg calls w).file .global = some text' ∧ WellFormed text') ∧
      ∀ u, LoadsAs cfg u (applyStores calls (dbLookup (some text)) u)
        (runStores cfg calls w).file := by
  have hloc (u : CString) : dbLoc cfg u = .global := by simp [dbLoc, hcfg]
  induction calls generalizing w text with
  | nil =>
    refine ⟨⟨text, hfile, hwf⟩, fun u => ?_⟩
    obtain ⟨ls, rfl, hls⟩ := hwf
    exact loadsAs_lookup hls (by rw [hloc]; exact hfile)
  | cons x xs ih =>
    obtain ⟨hx, hxs⟩ := List.forall_mem_cons.mp hcalls
    obtain ⟨hsx, hsxs⟩ := List.forall_mem_cons.mp hs
    obtain ⟨ls, rfl, hls⟩ := hwf
    obtain ⟨hdone, hfile'⟩ := dbFileStore_lines hcfg hx hsx hfree hls hfile
    have hnext := ih hxs _ (fun y hy => hdone.serves (hsxs y hy)) hdone.free _ hfile'
      ⟨_, rfl, hls.replace hx.name hx.valid⟩
    have hmap : (dbLookup (some (unlines
        (Keyed.replace lineUser x.s.username.val (newLine x.s x.remove) ls)))) = fun u =>
          if u = x.s.username then (if x.remove then none else some x.s.entry)
          else dbLookup (some (unlines ls)) u :=
      funext fun u => dbLookup_replace hx.name hx.valid hls u
    rw [hmap] at hnext
    exact hnext

/-- A second user. -/
def bobby : CString := ⟨"bobby".toList, by decide⟩

def bobbyState : State := State.initial configRoot Outcome.good.junk bobby

/-- The database of alice and bobby. -/
def sharedLines : List (List Char) :=
  [aliceState, bobbyState].map fun s => joinSep ':' (dbEntryFields s).toList

theorem sharedLines_ok : DbLines sharedLines where
  ok := by decide +kernel
  parses := by decide +kernel
  distinct := by
    have halice : lineUser (joinSep ':' (dbEntryFields aliceState).toList) = some alice.val := by
      decide +kernel
    have hbobby : lineUser (joinSep ':' (dbEntryFields bobbyState).toList) = some bobby.val := by
      decide +kernel
    have hne : alice.val ≠ bobby.val := by decide
    refine List.pairwise_pair.mpr fun k hk => ?_
    rw [halice, Option.some.injEq] at hk
    rw [hbobby, ← hk, ne_eq, Option.some.injEq]
    exact hne.symm

theorem dbFile_refines_map_alice :
    let moved := aliceState.setCounter (numII 0 5)
    let calls := [⟨0, moved, false⟩, ⟨0, bobbyState, true⟩, ⟨0, bobbyState, false⟩]
    let file := (runStores configRoot calls
      (World.boot (fun _ => some (unlines sharedLines)) fun _ => .good)).file
    LoadsAs configRoot alice (some moved.entry) file ∧
      LoadsAs configRoot bobby (some bobbyState.entry) file := by
  intro moved calls file
  have hcalls : ∀ x ∈ calls, x.Storable := by
    have hmoved : StoreCall.Storable ⟨0, moved, false⟩ :=
      ⟨rfl, alice_readable, by decide +kernel, .inl rfl⟩
    have hname : ReadableName bobby := ⟨⟨by decide, by decide⟩, by decide⟩
    have hvalid : bobbyState.entry.Valid := by decide +kernel
    have hbobby (remove : Bool) : StoreCall.Storable ⟨0, bobbyState, remove⟩ :=
      ⟨rfl, hname, hvalid, .inl rfl⟩
    simp [calls, hmoved, hbobby]
  have hmap := (dbFile_refines_map configRoot rfl calls hcalls
    (World.boot (fun _ => some (unlines sharedLines)) fun _ => .good)
    (fun _ _ => World.boot_serves _ _) (fun _ => rfl) _ rfl ⟨_, rfl, sharedLines_ok⟩).2
  have halice : applyStores calls (dbLookup (some (unlines sharedLines))) alice =
      some moved.entry := by decide +kernel
  have hbobby : applyStores calls (dbLookup (some (unlines sharedLines))) bobby =
      some bobbyState.entry := by decide +kernel
  exact ⟨halice ▸ hmap alice, hbobby ▸ hmap bobby⟩

end Otpasswd
