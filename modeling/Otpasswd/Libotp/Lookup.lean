import Otpasswd.Libotp.DbStoreSpec

/-!
# Otpasswd.Libotp.Lookup — the entries of a stored database

What a lookup finds in a database that a store has written. `Stored.lookup_eq`
and `Stored.lookup_remove` are about the user of the store, and
`dbLookup_valid`, `dbLookup_readable` say what an entry that can be looked up
satisfies.
-/

namespace Otpasswd

open CText

/-- A name whose line the reader can split. -/
structure ReadableName (u : CString) : Prop where
  plain : Plain u.val
  length_le : u.val.length ≤ stateMaxFieldSize

/-! ## What a lookup says about the file -/

theorem dbLookup_some {text : List Char} {u : CString} {e : Entry}
    (h : dbLookup (some text) u = some e) :
    ∃ pre l rest, (∀ l ∈ pre, Passed u l) ∧ LineOk l ∧ lineUser l = some u.val ∧
      text = unlines pre ++ (l ++ '\n' :: rest) ∧ lineEntry (l ++ ['\n']) = some e := by
  obtain ⟨pre, hpre, hend, -⟩ := dbFindUserEntry_cases u ⟨text, false, none⟩ none (by simp)
  simp only [dbLookup] at h
  cases hend with
  | found l hret hl hu hrest hbuff _ =>
    rw [if_pos hret, hbuff] at h
    exact ⟨pre, l, _, hpre, hl, hu, hrest, h⟩
  | absent hret => simp [hret] at h
  | error hret => rcases hret with hret | hret <;> simp [hret] at h

/-- More text after the end does not change what is found. -/
theorem dbLookup_prefix {a b : List Char} {u : CString} {e : Entry}
    (h : dbLookup (some a) u = some e) (hab : a <+: b) : dbLookup (some b) u = some e := by
  obtain ⟨c, rfl⟩ := hab
  obtain ⟨pre, l, rest, hpre, hl, hu, rfl, he⟩ := dbLookup_some h
  have htext : unlines pre ++ (l ++ '\n' :: rest) ++ c = unlines pre ++ (l ++ '\n' :: (rest ++ c)) := by
    simp
  rw [htext, dbLookup_line hpre hl hu, he]

/-- A line of another user is passed over. -/
theorem dbLookup_cons {u : CString} {l rest : List Char} (hl : Passed u l) :
    dbLookup (some (l ++ '\n' :: rest)) u = dbLookup (some rest) u := by
  refine Option.ext fun x => ?_
  constructor
  · intro h
    obtain ⟨pre, l', rest', hpre, hl', hu', htext, hx⟩ := dbLookup_some h
    cases pre with
    | nil =>
      -- the first line would be one of `u`
      have htake := congrArg (List.takeWhile (· ≠ '\n')) htext
      rw [unlines_nil, List.nil_append, takeWhile_sep hl.1.newline, takeWhile_sep hl'.newline]
        at htake
      rw [htake] at hl
      exact absurd hu' hl.2
    | cons m pre =>
      obtain ⟨hm, hpre⟩ := List.forall_mem_cons.mp hpre
      rw [unlines_cons, List.append_assoc, List.cons_append] at htext
      have hdrop := congrArg (List.dropWhile (· ≠ '\n')) htext
      rw [dropWhile_sep hl.1.newline, dropWhile_sep hm.1.newline] at hdrop
      rw [(List.cons.inj hdrop).2, dbLookup_line hpre hl' hu', hx]
  · intro h
    obtain ⟨pre, l', rest', hpre, hl', hu', rfl, hx⟩ := dbLookup_some h
    have htext : l ++ '\n' :: (unlines pre ++ (l' ++ '\n' :: rest')) =
        unlines (l :: pre) ++ (l' ++ '\n' :: rest') := by
      simp
    rw [htext, dbLookup_line (List.forall_mem_cons.mpr ⟨hl, hpre⟩) hl' hu', hx]

/-- It makes no difference behind other lines either. -/
theorem dbLookup_skip {u : CString} {pre : List (List Char)} {l rest : List Char}
    (hpre : ∀ l ∈ pre, LineOk l) (hl : Passed u l) :
    dbLookup (some (unlines pre ++ (l ++ '\n' :: rest))) u =
      dbLookup (some (unlines pre ++ rest)) u := by
  induction pre with
  | nil => exact dbLookup_cons hl
  | cons m pre ih =>
    obtain ⟨hm, hpre⟩ := List.forall_mem_cons.mp hpre
    simp only [unlines_cons, List.append_assoc, List.cons_append]
    by_cases hu : lineUser m = some u.val
    · have hfirst (text : List Char) : dbLookup (some (m ++ '\n' :: text)) u =
          lineEntry (m ++ ['\n']) := @dbLookup_line u [] m text (by simp) hm hu
      rw [hfirst, hfirst]
    · rw [dbLookup_cons ⟨hm, hu⟩, dbLookup_cons ⟨hm, hu⟩]
      exact ih hpre

theorem dbLookup_valid {file : Option (List Char)} {u : CString} {e : Entry}
    (h : dbLookup file u = some e) : e.Valid := by
  cases file with
  | none => simp [dbLookup] at h
  | some text =>
    obtain ⟨_, l, _, -, -, -, -, he⟩ := dbLookup_some h
    rw [lineEntry, Option.bind_eq_some_iff] at he
    obtain ⟨field, -, hdec⟩ := he
    exact decodeEntry_valid hdec

theorem dbLookup_readable {file : Option (List Char)} {u : CString} {e : Entry}
    (h : dbLookup file u = some e) : ReadableName u := by
  cases file with
  | none => simp [dbLookup] at h
  | some text =>
    obtain ⟨_, l, _, -, hl, hu, -, he⟩ := dbLookup_some h
    rw [lineEntry, Option.bind_eq_some_iff] at he
    obtain ⟨field, hparse, -⟩ := he
    obtain ⟨rest, hline, hcolon⟩ := lineUser_cases hu
    have hplain : Plain u.val :=
      ⟨hcolon, fun h0 => hl.newline (by rw [hline]; exact List.mem_append_left _ h0)⟩
    rw [hline, List.append_assoc, List.cons_append] at hparse
    exact ⟨hplain, (dbParseUserEntry_user hplain hparse).1⟩

/-! ## The line a store writes -/

/-- A printed character is one of the user's strings, a digit or a separator. -/
theorem mem_dbEntryFields (s : State) {c : Char}
    (h : c ∈ joinSep ':' (dbEntryFields s).toList) :
    c = ':' ∨ c ∈ s.username.val ∨ c ∈ s.label.val ∨ c ∈ s.contact.val ∨
      ∃ base, isDigitOf base c = true := by
  rcases mem_joinSep h with rfl | ⟨t, ht, hc⟩
  · exact .inl rfl
  have hdec {n : ℕ} (hc : c ∈ Nat.toDigits 10 n) : ∃ base, isDigitOf base c = true :=
    ⟨_, isDigitOf_of_mem_toDigits (by simp) (by simp) hc⟩
  have hhex {n : ℕ} (hc : c ∈ Nat.toDigits 16 n) : ∃ base, isDigitOf base c = true :=
    ⟨_, isDigitOf_of_mem_toDigits (by simp) (by simp) hc⟩
  have hbytes {bs : List Byte} (hc : c ∈ hexBytes bs) : ∃ base, isDigitOf base c = true :=
    ⟨_, isDigitOf_of_mem_hexBytes hc⟩
  simp only [Fields.toList, dbEntryFields, List.mem_cons, List.not_mem_nil, or_false] at ht
  rcases ht with rfl | rfl | rfl | rfl | rfl | rfl | rfl | rfl | rfl | rfl | rfl | rfl | rfl | rfl | rfl
  · exact .inr (.inl hc)
  · exact .inr (.inr (.inr (.inr (hdec hc))))
  · exact .inr (.inr (.inr (.inr (hbytes hc))))
  · exact .inr (.inr (.inr (.inr (hbytes hc))))
  · exact .inr (.inr (.inr (.inr (hbytes hc))))
  · exact .inr (.inr (.inr (.inr (hdec hc))))
  · exact .inr (.inr (.inr (.inr (hdec hc))))
  · exact .inr (.inr (.inr (.inr (hdec hc))))
  · exact .inr (.inr (.inr (.inr (hdec hc))))
  · exact .inr (.inr (.inr (.inr (hdec hc))))
  · exact .inr (.inr (.inr (.inr (hhex hc))))
  · split at hc
    · exact .inr (.inr (.inr (.inr (hbytes hc))))
    · simp at hc
  · exact .inr (.inr (.inr (.inr (hdec hc))))
  · exact .inr (.inr (.inl hc))
  · exact .inr (.inr (.inr (.inl hc)))

/-- For a readable name the printed line fits, and is a line of that user. -/
theorem dbEntryText_line_of_chars (s : State) (hu : ReadableName s.username)
    (hlabel : stateValidateStr s.label.val = true)
    (hcontact : stateValidateStr s.contact.val = true) :
    ∃ l, dbEntryText s = l ++ ['\n'] ∧ LineOk l ∧ lineUser l = some s.username.val ∧
      storeBody (dbEntryText s) false = l ++ ['\n'] := by
  obtain ⟨k, hk, hk1, hk2⟩ := length_dbEntryText s
  have hlen := hu.length_le
  have hline : dbEntryText s = joinSep ':' (dbEntryFields s).toList ++ ['\n'] := rfl
  have hk' := hk
  rw [hline, List.length_append, List.length_singleton] at hk'
  have hplain (c : Char) (h : c = '\n' ∨ c = '\x00')
      (hc : c ∈ joinSep ':' (dbEntryFields s).toList) : False := by
    rcases mem_dbEntryFields s hc with rfl | hm | hm | hm | ⟨base, hd⟩
    · simp at h
    · rcases h with rfl | rfl
      · exact hu.plain.2 hm
      · exact s.username.property hm
    · rcases h with rfl | rfl
      · exact (stateValidateStr_plain hlabel).2 hm
      · exact s.label.nul_not_mem hm
    · rcases h with rfl | rfl
      · exact (stateValidateStr_plain hcontact).2 hm
      · exact s.contact.nul_not_mem hm
    · obtain ⟨-, -, -, -, h1, h2, -⟩ := digit_plain hd
      rcases h with rfl | rfl
      · exact h1 rfl
      · exact h2 rfl
  have huser : ∃ rest, joinSep ':' (dbEntryFields s).toList = s.username.val ++ ':' :: rest :=
    ⟨_, by rw [Fields.toList, joinSep_cons_cons]; rfl⟩
  refine ⟨joinSep ':' (dbEntryFields s).toList, hline, ⟨fun h => hplain _ (.inl rfl) h,
    fun h => hplain _ (.inr rfl) h, by omega, ?_⟩, ?_, ?_⟩
  · simp only [stateMaxFieldSize] at hlen
    omega
  · obtain ⟨rest, hrest⟩ := huser
    rw [lineUser, hrest, if_pos (by simp), takeWhile_sep hu.plain.1]
  · rw [← hline, storeBody, if_neg (by simp), List.take_of_length_le]
    simp only [stateMaxFieldSize, stateEntrySize] at hlen ⊢
    omega

theorem dbEntryText_line (s : State) (hu : ReadableName s.username) (hv : s.entry.Valid) :
    ∃ l, dbEntryText s = l ++ ['\n'] ∧ LineOk l ∧ lineUser l = some s.username.val ∧
      storeBody (dbEntryText s) false = l ++ ['\n'] :=
  dbEntryText_line_of_chars s hu hv.label_chars hv.contact_chars

/-! ## Lookups after a store -/

section Stored

variable {cfg : Cfg} {s : State} {u : CString} {line : List Char} {ok : Prop}
  {old new : Option (List Char)}

/-- Around what is written there are lines of other users only. -/
theorem Stored.shape {remove : Bool} (h : Stored cfg u line remove ok old new) :
    remove = true ∧ new = none ∨
      ∃ pre post text, (∀ l ∈ pre, Passed u l) ∧ (∀ l ∈ post, Passed u l) ∧ new = some text ∧
        text <+: unlines pre ++ storeBody line remove ++ unlines post ∧
        (ok → text = unlines pre ++ storeBody line remove ++ unlines post) := by
  cases h with
  | unlinked _ _ hremove => exact .inl ⟨hremove, rfl⟩
  | appended _ pre _ hpre =>
    exact .inr ⟨pre, [], _, hpre, by simp, rfl, by simp, by simp⟩
  | replaced pre _ post _ hpre _ _ hpost =>
    exact .inr ⟨pre, post, _, hpre, hpost, rfl, List.prefix_refl _, fun _ => rfl⟩
  | duplicate pre _ mid _ _ new _ hpre _ _ hmid _ _ hnew hok =>
    exact .inr ⟨pre, mid, new, hpre, hmid, rfl, hnew, hok⟩

/-- The line written is the first of the user. -/
theorem dbLookup_storeBody (hu : ReadableName s.username) (hv : s.entry.Valid)
    {pre : List (List Char)} (hpre : ∀ l ∈ pre, Passed s.username l) (rest : List Char) :
    dbLookup (some (unlines pre ++ storeBody (dbEntryText s) false ++ rest)) s.username =
      some s.entry := by
  obtain ⟨l, htext, hl, hlu, hbody⟩ := dbEntryText_line s hu hv
  have hline : unlines pre ++ (l ++ ['\n']) ++ rest = unlines pre ++ (l ++ '\n' :: rest) := by
    simp
  rw [hbody, hline, dbLookup_line hpre hl hlu, ← htext]
  exact lineEntry_dbEntryText s hu.plain hu.length_le hv

/-- All that can be looked up for the user of a store is what was stored. -/
theorem Stored.lookup_self {x : Entry} (hu : ReadableName s.username) (hv : s.entry.Valid)
    (h : Stored cfg s.username (dbEntryText s) false ok old new)
    (hx : dbLookup new s.username = some x) : x = s.entry := by
  rcases h.shape with ⟨hremove, -⟩ | ⟨pre, post, text, hpre, -, rfl, hpref, -⟩
  · simp at hremove
  · have hfull := dbLookup_prefix hx hpref
    rw [dbLookup_storeBody hu hv hpre] at hfull
    exact (Option.some.inj hfull).symm

/-- What the loader would refuse is not looked up. -/
theorem Stored.valid_of_lookup {x : Entry} (hu : ReadableName s.username)
    (hlabel : stateValidateStr s.label.val = true)
    (hcontact : stateValidateStr s.contact.val = true)
    (h : Stored cfg s.username (dbEntryText s) false ok old new)
    (hx : dbLookup new s.username = some x) : s.entry.Valid := by
  rcases h.shape with ⟨hremove, -⟩ | ⟨pre, post, text, hpre, -, rfl, hpref, -⟩
  · simp at hremove
  · obtain ⟨l, htext, hl, hlu, hbody⟩ := dbEntryText_line_of_chars s hu hlabel hcontact
    have hline : unlines pre ++ (l ++ ['\n']) ++ unlines post =
        unlines pre ++ (l ++ '\n' :: unlines post) := by simp
    have hfull := dbLookup_prefix hx hpref
    rw [hbody, hline, dbLookup_line hpre hl hlu, ← htext] at hfull
    exact valid_of_lineEntry s hu.plain hu.length_le hlabel hcontact hfull

/-- What is found for another user after a store was there before. -/
theorem Stored.lookup_other {v : CString} {x : Entry} (hu : ReadableName s.username)
    (hv : s.entry.Valid) (hne : v ≠ s.username)
    (h : Stored cfg s.username (dbEntryText s) false ok old new)
    (hx : dbLookup new v = some x) : dbLookup old v = some x := by
  obtain ⟨l, -, hl, hlu, hbody⟩ := dbEntryText_line s hu hv
  have hother {m : List Char} (hm : LineOk m) (hmu : lineUser m = some s.username.val) :
      Passed v m := by
    refine ⟨hm, fun h => hne ?_⟩
    rw [hmu] at h
    exact Subtype.ext (Option.some.inj h).symm
  -- without the line that was written
  have hrest {pre : List (List Char)} {rest text : List Char}
      (hpre : ∀ l ∈ pre, Passed s.username l)
      (htext : text <+: unlines pre ++ storeBody (dbEntryText s) false ++ rest)
      (hx : dbLookup (some text) v = some x) :
      dbLookup (some (unlines pre ++ rest)) v = some x := by
    have hfull := dbLookup_prefix hx htext
    have hassoc : unlines pre ++ (l ++ ['\n']) ++ rest = unlines pre ++ (l ++ '\n' :: rest) := by
      simp
    rwa [hbody, hassoc, dbLookup_skip (fun m hm => (hpre m hm).1) (hother hl hlu)] at hfull
  cases h with
  | unlinked _ _ hremove => cases hremove
  | appended _ pre _ hpre hold =>
    have hfound := @hrest pre [] _ hpre (by simp) hx
    rw [List.append_nil, ← hold] at hfound
    cases old with
    | none =>
      have hnone : dbLookup (some (unlines [])) v = none := dbLookup_absent (by simp)
      rw [Option.getD_none, ← unlines_nil, hnone] at hfound
      cases hfound
    | some text => exact hfound
  | replaced pre m post _ hpre hm hmu _ =>
    rw [dbLookup_skip (fun m hm => (hpre m hm).1) (hother hm hmu)]
    exact hrest hpre (List.prefix_refl _) hx
  | duplicate pre m mid m' rest new _ hpre hm hmu _ _ _ hnew _ =>
    rw [dbLookup_skip (fun m hm => (hpre m hm).1) (hother hm hmu)]
    refine dbLookup_prefix (hrest hpre hnew hx) ?_
    exact ⟨m' ++ '\n' :: rest, by simp⟩

/-- When no call fails, it can be looked up. -/
theorem Stored.lookup_eq (hu : ReadableName s.username) (hv : s.entry.Valid)
    (h : Stored cfg s.username (dbEntryText s) false ok old new) (hok : ok) :
    dbLookup new s.username = some s.entry := by
  rcases h.shape with ⟨hremove, -⟩ | ⟨pre, post, text, hpre, -, rfl, -, htext⟩
  · simp at hremove
  · rw [htext hok, dbLookup_storeBody hu hv hpre]

/-- What is found for the user after a store is an entry. -/
theorem Stored.intact (hu : ReadableName s.username) (hv : s.entry.Valid)
    (h : Stored cfg s.username (dbEntryText s) false ok old new) : Intact new s.username := by
  rintro pre' l rest hpre' hl hlu rfl
  rcases h.shape with ⟨hremove, -⟩ | ⟨pre, post, text, hpre, -, htext, ⟨c, hpref⟩, -⟩
  · simp at hremove
  · have hfull := dbLookup_storeBody hu hv hpre (unlines post)
    have happ : unlines pre' ++ (l ++ '\n' :: rest) ++ c =
        unlines pre' ++ (l ++ '\n' :: (rest ++ c)) := by simp
    rw [← hpref, ← Option.some.inj htext, happ, dbLookup_line hpre' hl hlu] at hfull
    rw [hfull, Option.isSome_some]

/-- Nothing is found for the user after a removal. -/
theorem Stored.intact_remove (h : Stored cfg u line true ok old new) : Intact new u := by
  rintro pre' l rest hpre' hl hlu rfl
  rcases h.shape with ⟨-, hnone⟩ | ⟨pre, post, text, hpre, hpost, htext, ⟨c, hpref⟩, -⟩
  · cases hnone
  · rw [storeBody, if_pos rfl, List.append_nil, ← unlines_append] at hpref
    have happ : unlines pre' ++ (l ++ '\n' :: rest) ++ c =
        unlines pre' ++ (l ++ '\n' :: (rest ++ c)) := by simp
    have hpassed : ∀ l ∈ pre ++ post, Passed u l := fun l hl =>
      (List.mem_append.mp hl).elim (hpre l) (hpost l)
    have hfound := dbFindUserEntry_found hpre' hl hlu (rest ++ c) none
    have habsent := dbFindUserEntry_absent hpassed none
    rw [← hpref, ← Option.some.inj htext, happ, hfound] at habsent
    simp at habsent

/-- After a removal there is nothing to look up for the user. -/
theorem Stored.lookup_remove (h : Stored cfg u line true ok old new) : dbLookup new u = none := by
  rcases h.shape with ⟨-, rfl⟩ | ⟨pre, post, text, hpre, hpost, rfl, hpref, -⟩
  · rfl
  · rw [storeBody, if_pos rfl, List.append_nil, ← unlines_append] at hpref
    cases hx : dbLookup (some text) u with
    | none => rfl
    | some x =>
      have hfull := dbLookup_prefix hx hpref
      rw [dbLookup_absent fun l hl => ?_] at hfull
      · simp at hfull
      · rcases List.mem_append.mp hl with hl | hl
        · exact hpre l hl
        · exact hpost l hl

end Stored

/-! ## A user to try things with -/

def alice : CString := ⟨"alice".toList, by decide⟩

def aliceState : State := State.initial configRoot Outcome.good.junk alice

/-- The first passcode of hers, with `plainCrypto`. -/
def alicePasscode : CString := ⟨"!!!!".toList, by decide⟩

theorem alice_readable : ReadableName alice := ⟨⟨by decide, by decide⟩, by decide⟩

theorem aliceEntry_valid : aliceState.entry.Valid := by decide +kernel

end Otpasswd
