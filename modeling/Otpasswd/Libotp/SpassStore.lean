import Otpasswd.Libotp.Spass
import Otpasswd.Libotp.Lookup

/-!
# Otpasswd.Libotp.SpassStore — a static password that was set

Setting a static password reports success also when its hash could not be
made, and for the empty password, which no check accepts. Otherwise the
password is accepted, also after the state went through the database.

Main results: `Stored.lookup_spass` and `spassUsable_iff`.
-/

namespace Otpasswd

open CText Prog

/-! ## The static password in the database -/

/-- The tail of a line does not change its fields in front. -/
theorem dbParseLoop_joinSep_inv {toks : List (List Char)} {tail : List Char} {n : ℕ}
    {fields : List (List Char)} (hp : ∀ t ∈ toks, Plain t)
    (h : dbParseLoop (n + toks.length) (some (joinSep ':' (toks ++ [tail]))) = some fields) :
    ∃ fields', fields = toks ++ fields' := by
  induction toks generalizing fields with
  | nil => exact ⟨fields, rfl⟩
  | cons t toks ih =>
    obtain ⟨ht, hp⟩ := List.forall_mem_cons.mp hp
    rw [List.cons_append, joinSep_cons_concat, List.length_cons, ← Nat.add_assoc] at h
    obtain ⟨fields1, rfl, hrest, -⟩ := dbParseLoop_inv ht h
    obtain ⟨fields2, rfl⟩ := ih hp hrest
    exact ⟨fields2, rfl⟩

/-- The fields in front of the label. -/
def dbEntryFront (s : State) : List (List Char) := (dbEntryFields s).toList.take 13

theorem dbEntryFront_plain (s : State) (hu : Plain s.username.val) :
    ∀ t ∈ dbEntryFront s, Plain t := by
  have hdec (n : ℕ) : Plain (Nat.toDigits 10 n) := plain_toDigits (by simp) (by simp) n
  have hspass : Plain (dbEntryFields s).spass := by
    simp only [dbEntryFields]
    split
    · exact plain_hexBytes _
    · exact ⟨by simp, by simp⟩
  simp only [dbEntryFront, Fields.toList, List.take_succ_cons, List.take_zero,
    List.forall_mem_cons]
  change Plain s.username.val ∧ Plain (Nat.toDigits 10 1) ∧ _
  exact ⟨hu, hdec _, plain_hexBytes _, plain_hexBytes _, plain_hexBytes _, hdec _, hdec _, hdec _,
    hdec _, hdec _, plain_toDigits (by simp) (by simp) _, hspass, hdec _, List.forall_mem_nil _⟩

/-- Whatever stands behind the fields in front, the static password is read
back from them. -/
theorem lineEntry_front {s : State} {tail : List Char} {e : Entry} (hu : Plain s.username.val)
    (h : lineEntry (joinSep ':' (dbEntryFront s ++ [tail])) = some e) :
    e.spass = s.entry.spass := by
  rw [lineEntry, Option.bind_eq_some_iff] at h
  obtain ⟨field, hparse, hdec⟩ := h
  rw [dbParseUserEntry, Option.bind_eq_some_iff] at hparse
  obtain ⟨fields, hloop, hfield⟩ := hparse
  obtain ⟨fields', rfl⟩ := @dbParseLoop_joinSep_inv _ _ 2 _ (dbEntryFront_plain s hu) hloop
  have hsame : field.spass = (dbEntryFields s).spass ∧ field.spassTime = (dbEntryFields s).spassTime := by
    unfold Fields.ofList at hfield
    split at hfield
    · rename_i heq
      obtain rfl := Option.some.inj hfield
      simp only [dbEntryFront, Fields.toList, List.take_succ_cons, List.take_zero,
        List.cons_append, List.cons.injEq] at heq
      exact ⟨heq.2.2.2.2.2.2.2.2.2.2.2.1.symm, heq.2.2.2.2.2.2.2.2.2.2.2.2.1.symm⟩
    · cases hfield
  have hread := (decodeEntry_iff.mp hdec).spass
  rw [hsame.1, hsame.2, decodeSpass_dbEntryFields] at hread
  exact (Option.some.inj hread).symm

/-- The first line that a store prints. -/
theorem dbEntryText_front (s : State) :
    ∃ tail rest, '\n' ∉ tail ∧
      dbEntryText s = joinSep ':' (dbEntryFront s ++ [tail]) ++ '\n' :: rest := by
  set last := s.label.val ++ ':' :: s.contact.val ++ ['\n'] with hlast
  obtain ⟨rest, hrest⟩ := @eq_takeWhile_append '\n' last (by rw [hlast]; simp)
  have htext : dbEntryText s = joinSep ':' (dbEntryFront s ++ [last]) := by
    rw [hlast, joinSep_concat_append, ← joinSep_concat_two]
    rfl
  refine ⟨last.takeWhile (· ≠ '\n'), rest, ?_, ?_⟩
  · intro hmem
    simpa using List.mem_takeWhile_imp hmem
  · rw [htext, ← joinSep_concat_append, ← hrest]

/-- What can be looked up for the user of a store has the static password that
was stored, whatever the other strings of the state are. -/
theorem Stored.lookup_spass {cfg : Cfg} {s : State} {ok : Prop} {old new : Option (List Char)}
    {e : Entry} (h : Stored cfg s.username (dbEntryText s) false ok old new)
    (he : dbLookup new s.username = some e) : e.spass = s.entry.spass := by
  have hu := dbLookup_readable he
  rcases h.shape with ⟨hremove, -⟩ | ⟨pre, post, text, hpre, -, rfl, hpref, -⟩
  · cases hremove
  · have hfull := dbLookup_prefix he hpref
    obtain ⟨tail, rest, htail, htext⟩ := dbEntryText_front s
    obtain ⟨k, hk, hk1, hk2⟩ := length_dbEntryText s
    have hlen := hu.length_le
    simp only [stateMaxFieldSize] at hlen
    -- the user can be looked up, so the name is short and the line fits
    have hbody : storeBody (dbEntryText s) false = dbEntryText s := by
      rw [storeBody, if_neg (by simp), List.take_of_length_le (by simp; omega)]
    set l := joinSep ':' (dbEntryFront s ++ [tail]) with hl
    have hplain := dbEntryFront_plain s hu.plain
    -- the fields up to the password are plain, and the tail ends at its first newline
    have hnewline : '\n' ∉ l := by
      intro hmem
      rcases mem_joinSep hmem with hcolon | ⟨t, ht, hc⟩
      · exact absurd hcolon (by decide)
      · rcases List.mem_append.mp ht with ht | ht
        · exact (hplain t ht).2 hc
        · rw [List.mem_singleton.mp ht] at hc
          exact htail hc
    have hnul : '\x00' ∉ l := by
      intro hmem
      have hmem : '\x00' ∈ dbEntryText s := by
        rw [htext]
        exact List.mem_append_left _ hmem
      rcases List.mem_append.mp hmem with hmem | hmem
      · rcases mem_dbEntryFields s hmem with hcolon | hm | hm | hm | ⟨base, hd⟩
        · exact absurd hcolon (by decide)
        · exact s.username.property hm
        · exact s.label.nul_not_mem hm
        · exact s.contact.nul_not_mem hm
        · exact (digit_plain hd).2.2.2.2.2.1 rfl
      · exact absurd (List.mem_singleton.mp hmem) (by decide)
    -- the first line of what was written is read back
    have hline : LineOk l := by
      have hge : l.length = ((dbEntryFront s ++ [tail]).map List.length).sum + 13 :=
        length_joinSep ':' (dbEntryFront s ++ [tail])
      have hle := congrArg List.length htext
      rw [List.length_append, List.length_cons, hk] at hle
      exact ⟨hnewline, hnul, by omega, by omega⟩
    have huser : lineUser l = some s.username.val := by
      have hname : ∃ rest, l = s.username.val ++ ':' :: rest :=
        ⟨_, joinSep_cons_concat ':' s.username.val ((dbEntryFields s).toList.take 13).tail tail⟩
      obtain ⟨rest, hrest⟩ := hname
      rw [hrest, lineUser, if_pos (by simp), takeWhile_sep hu.plain.1]
    have hassoc : unlines pre ++ dbEntryText s ++ unlines post =
        unlines pre ++ (l ++ '\n' :: (rest ++ unlines post)) := by
      rw [htext]
      simp
    rw [hbody, hassoc, dbLookup_line hpre hline huser, hl, ← joinSep_concat_append] at hfull
    exact lineEntry_front hu.plain hfull

/-! ## Setting and checking -/

section

variable {crypto : Crypto} {cfg : Cfg} {me : Pid} {s : State} {spass : CString} {check : Bool}
  {w : World}

/-- The hash of a password behind a salt. -/
def saltedHash (crypto : Crypto) (salt : List Byte) (spass : CString) : List Byte :=
  (crypto.sha256 (salt ++ spass.val.map fun c => BitVec.ofNat 8 c.toNat)).val

/-- Bytes that are a salt and the hash of a password behind it. -/
def Verifies (crypto : Crypto) (bytes : Bytes 40) (spass : CString) : Prop :=
  bytes.val = bytes.val.take 8 ++ saltedHash crypto (bytes.val.take 8) spass

/-- `ppp_spass_validate` of the state accepts a password. -/
def Accepted (crypto : Crypto) (me : Pid) (s : State) (spass : CString) (w : World) : Prop :=
  ((pppSpassValidate crypto s spass).run (Sys.exec me) w).1 = some 0

theorem saltedHash_length (salt : List Byte) (spass : CString) :
    (saltedHash crypto salt spass).length = 32 := (crypto.sha256 _).length_val

theorem verify_eq (crypto : Crypto) (bytes : Bytes 40) (spass : CString) (me : Pid) (w : World) :
    ((cryptoVerifySaltedSha256 crypto bytes spass.val).run (Sys.exec me) w).1 = some 0 ↔
      spass.val ≠ [] ∧ w.next.ok = true ∧ Verifies crypto bytes spass := by
  unfold cryptoVerifySaltedSha256
  by_cases hempty : spass.val = []
  · rw [if_pos (List.length_eq_zero_iff.mpr hempty)]
    exact iff_of_false (fun h => nomatch Option.some.inj h) fun h => h.1 hempty
  · rw [if_neg fun h => hempty (List.length_eq_zero_iff.mp h)]
    change (run (Sys.exec me) (if w.next.ok = false then _ else _) _).1 = some 0 ↔ _
    by_cases hok : w.next.ok = true
    · rw [if_neg (by rw [hok]; decide)]
      have hlen : (bytes.val.take 8 ++ saltedHash crypto (bytes.val.take 8) spass).length = 40 := by
        rw [List.length_append, saltedHash_length, List.length_take, bytes.length_val]
        rfl
      have hiff : Bytes.ofList 40 (bytes.val.take 8 ++ saltedHash crypto (bytes.val.take 8) spass) =
          bytes ↔ Verifies crypto bytes spass := by
        unfold Verifies
        constructor
        · intro h
          have hval := congrArg Subtype.val h
          rw [Bytes.val_ofList hlen] at hval
          exact hval.symm
        · intro h
          apply Subtype.ext
          rw [Bytes.val_ofList hlen]
          exact h.symm
      change some (if Bytes.ofList 40 (bytes.val.take 8 ++
        saltedHash crypto (bytes.val.take 8) spass) = bytes then 0 else 1) = some 0 ↔ _
      by_cases hv : Verifies crypto bytes spass
      · rw [if_pos (hiff.mpr hv)]
        exact iff_of_true rfl ⟨hempty, hok, hv⟩
      · rw [if_neg fun h => hv (hiff.mp h)]
        exact iff_of_false (fun h => nomatch Option.some.inj h) fun h => hv h.2.2
    · rw [if_pos (Bool.eq_false_of_not_eq_true hok)]
      exact iff_of_false (fun h => nomatch Option.some.inj h) fun h => hok h.2.1

theorem accepted_iff : Accepted crypto me s spass w ↔
    s.spassSet = true ∧ spass.val ≠ [] ∧ w.next.ok = true ∧ Verifies crypto s.spass spass := by
  unfold Accepted pppSpassValidate
  by_cases hset : s.spassSet = true
  · rw [if_neg (by rw [hset]; decide), ← verify_eq crypto s.spass spass me w, run_bind]
    rcases (cryptoVerifySaltedSha256 crypto s.spass spass.val).run (Sys.exec me) w with ⟨r, w'⟩
    rcases r with _ | ret
    · exact iff_of_false (fun h => nomatch h) fun h => nomatch h.2
    · by_cases hret : ret = 0
      · rw [hret]
        exact iff_of_true rfl ⟨hset, rfl⟩
      · have hne : ¬ some ret = some 0 := fun h => hret (Option.some.inj h)
        change (run (Sys.exec me) (if ret ≠ 0 then _ else _) w').1 = some 0 ↔ _
        rw [if_pos hret]
        exact iff_of_false (fun h => nomatch Option.some.inj h) fun h => hne h.2
  · rw [if_pos (Bool.eq_false_of_not_eq_true hset)]
    exact iff_of_false (fun h => nomatch Option.some.inj h) fun h => hset h.1

/-! ## What setting leaves -/

/-- The policy refuses the password. -/
def SpassRefused (cfg : Cfg) (spass : CString) (check : Bool) : Prop :=
  check = true ∧ (cfg.spassChange = configDisallow ∨ verifySpass cfg spass.val ≠ 0)

/-- The allocation and the random device work. -/
def Hashed (w : World) : Prop := (w.io (w.tick + 1)).ok = true ∧ (w.io (w.tick + 2)).ok = true

instance : Decidable (Hashed w) := inferInstanceAs (Decidable (_ ∧ _))

/-- The bytes that `ppp_set_spass` stores: what the stack held, if no hash
could be made. -/
def spassBytes (crypto : Crypto) (spass : CString) (w : World) : Bytes 40 :=
  if Hashed w then
    let salt := (Bytes.ofList 8 (w.io (w.tick + 2)).bytes).val
    Bytes.ofList 40 (salt ++ saltedHash crypto salt spass)
  else w.next.junk.spass

theorem spassErrors_bits : ∀ err < 64, err &&& pppErrorSpassSet = 0 ∧
    (err + pppErrorSpassSet) &&& pppErrorSpassSet ≠ 0 := by
  decide

/-- A refused password changes nothing. -/
theorem run_pppSetSpass_refused (h : SpassRefused cfg spass check) :
    ∃ err, (pppSetSpass crypto cfg s (some spass) check).run (Sys.exec me) w = (some (err, s), w) ∧
      err &&& pppErrorSpassSet = 0 := by
  have hlt := verifySpass_lt cfg spass.val
  unfold pppSetSpass
  by_cases hdeny : cfg.spassChange = configDisallow
  · rw [if_pos ⟨h.1, hdeny⟩]
    exact ⟨_, rfl, by decide⟩
  · have herr := h.2.resolve_left hdeny
    rw [if_neg fun hboth => hdeny hboth.2]
    simp only
    rw [if_pos ⟨h.1, herr⟩]
    exact ⟨_, rfl, (spassErrors_bits _ hlt).1⟩

/-- Hashing leaves the buffer as it was where it fails. -/
theorem run_cryptoSaltedSha256 (crypto : Crypto) (spass : CString) (me : Pid) (buf : Bytes 40)
    (w : World) :
    ∃ w', (cryptoSaltedSha256 crypto spass.val buf).run (Sys.exec me) w =
      (some (if w.next.ok = true ∧ (w.io (w.tick + 1)).ok = true then
          let salt := (Bytes.ofList 8 (w.io (w.tick + 1)).bytes).val
          Bytes.ofList 40 (salt ++ saltedHash crypto salt spass)
        else buf), w') := by
  unfold cryptoSaltedSha256
  change ∃ w', run (Sys.exec me) (if w.next.ok = false then _ else _) _ = _
  by_cases hmalloc : w.next.ok = true
  · rw [if_neg (by rw [hmalloc]; decide)]
    set w1 : World := { w with tick := w.tick + 1 } with hw1
    have hrng : Sys.exec me (.rng 8) w1 = (if (w.io (w.tick + 1)).ok = true then
        some (Bytes.ofList 8 (w.io (w.tick + 1)).bytes) else none,
          { w1 with tick := w1.tick + 1 }) := rfl
    rw [sys, show Prog.issue (Sys.rng 8) = .call (Sys.rng 8) .ret from rfl]
    change ∃ w', run (Sys.exec me) (_ : SysM (Bytes 40)) (Sys.exec me (.rng 8) w1).2 = _
    rw [show (Sys.exec me .malloc w).2 = w1 from rfl, hrng]
    by_cases hok : (w.io (w.tick + 1)).ok = true
    · rw [if_pos hok, if_pos ⟨hmalloc, hok⟩]
      exact ⟨_, rfl⟩
    · rw [if_neg hok, if_neg fun h => hok h.2]
      exact ⟨_, rfl⟩
  · rw [if_pos (Bool.eq_false_of_not_eq_true hmalloc), if_neg fun h => hmalloc h.1]
    exact ⟨_, rfl⟩

/-- Any other password is reported as set. -/
theorem run_pppSetSpass_set (h : ¬ SpassRefused cfg spass check) :
    ∃ time w', (pppSetSpass crypto cfg s (some spass) check).run (Sys.exec me) w =
      (some (verifySpass cfg spass.val + pppErrorSpassSet,
        s.setSpass (spassBytes crypto spass w) true time), w') := by
  unfold pppSetSpass
  rw [if_neg fun hboth => h ⟨hboth.1, .inl hboth.2⟩]
  simp only
  rw [if_neg fun hboth => h ⟨hboth.1, .inr hboth.2⟩]
  obtain ⟨w', hrun⟩ := run_cryptoSaltedSha256 crypto spass me w.next.junk.spass
    (Sys.exec me .stackHash w).2
  refine ⟨w'.next.time, { w' with tick := w'.tick + 1 }, ?_⟩
  change run (Sys.exec me) (cryptoSaltedSha256 crypto spass.val w.next.junk.spass >>= fun hash =>
    sys .time >>= fun time => pure (_, s.setSpass hash true time)) _ = _
  rw [run_bind, hrun]
  rfl

/-! ## Usable passwords -/

/-- After setting a password at `w`, the password is accepted at `w1`, at once
and from the database, and only passwords with the same hash are; and if the
password was neither set nor removed, the stored one is as before. -/
structure SpassUsable (crypto : Crypto) (cfg : Cfg) (me : Pid) (s : State) (spass : CString)
    (check : Bool) (w w1 : World) : Prop where
  set : ∀ ret s' w', (pppSetSpass crypto cfg s (some spass) check).run (Sys.exec me) w =
      (some (ret, s'), w') → ret &&& pppErrorSpassSet ≠ 0 →
    Accepted crypto me s' spass w1 ∧
      (∀ w2 w3 w4 w5 s3 t s5, (dbFileStore cfg s' false).run (Sys.exec me) w2 = (some (0, s3), w3) →
        t.username = s'.username → w4.file = w3.file →
        (dbFileLoad cfg t).run (Sys.exec me) w4 = (some (0, s5), w5) →
        Accepted crypto me s5 spass w1) ∧
      ∀ other w6, Accepted crypto me s' other w6 →
        saltedHash crypto (s'.spass.val.take 8) other = saltedHash crypto (s'.spass.val.take 8) spass
  kept : ∀ ret s' w', (pppSetSpass crypto cfg s (some spass) check).run (Sys.exec me) w =
      (some (ret, s'), w') → ret &&& pppErrorSpassSet = 0 → ret &&& pppErrorSpassUnset = 0 →
    s'.spass = s.spass ∧ s'.spassSet = s.spassSet ∧ s'.spassTime = s.spassTime

/-- The password is refused, or it is not empty, its hash can be made (or the
stack holds a hash of it), and there is memory for the check. -/
def SpassChecked (crypto : Crypto) (cfg : Cfg) (spass : CString) (check : Bool) (w w1 : World) :
    Prop :=
  SpassRefused cfg spass check ∨
    spass.val ≠ [] ∧ w1.next.ok = true ∧ (Hashed w ∨ Verifies crypto w.next.junk.spass spass)

theorem verifies_spassBytes : Verifies crypto (spassBytes crypto spass w) spass ↔
    Hashed w ∨ Verifies crypto w.next.junk.spass spass := by
  unfold spassBytes
  by_cases hhashed : Hashed w
  · rw [if_pos hhashed]
    refine iff_of_true ?_ (.inl hhashed)
    set salt := Bytes.ofList 8 (w.io (w.tick + 2)).bytes
    have hlen : (salt.val ++ saltedHash crypto salt.val spass).length = 40 := by
      rw [List.length_append, saltedHash_length, salt.length_val]
    unfold Verifies
    simp only
    rw [Bytes.val_ofList hlen, List.take_left' salt.length_val]
  · rw [if_neg hhashed]
    exact (or_iff_right hhashed).symm

/-- Bytes verify passwords of one hash only. -/
theorem Verifies.unique {bytes : Bytes 40} {other : CString} (h : Verifies crypto bytes spass)
    (h' : Verifies crypto bytes other) :
    saltedHash crypto (bytes.val.take 8) other = saltedHash crypto (bytes.val.take 8) spass :=
  List.append_cancel_left (h'.symm.trans h)

/-- A static password that was stored is loaded again. -/
theorem load_spass {s3 t s5 : State} {w2 w3 w4 w5 : World}
    (hstore : (dbFileStore cfg s false).run (Sys.exec me) w2 = (some (0, s3), w3))
    (huser : t.username = s.username) (hfile : w4.file = w3.file)
    (hload : (dbFileLoad cfg t).run (Sys.exec me) w4 = (some (0, s5), w5))
    (hset : s.spassSet = true) : s5.spass = s.spass ∧ s5.spassSet = true := by
  have hwrite := (dbFileStore_spec me cfg s false w2)
  unfold wp at hwrite
  rw [hstore] at hwrite
  obtain ⟨e, he, rfl⟩ := dbFileLoad_found hload
  cases hwrite.1 with
  | kept _ hr => exact absurd rfl hr
  | stored new hnew hnewfile _ _ =>
    rw [hfile, hnewfile, huser, Function.update_self] at he
    have hspass := hnew.lookup_spass he
    have hentry : s.entry.spass = some (s.spass, s.spassTime) := by
      simp [State.entry, hset]
    unfold State.load
    rw [hspass, hentry]
    exact ⟨rfl, rfl⟩

/-- A password that was reported as set can be used exactly when it is not
empty, its hash could be made and there is memory for the check. -/
theorem spassUsable_iff (crypto : Crypto) (cfg : Cfg) (me : Pid) (s : State) (spass : CString)
    (check : Bool) (w w1 : World) :
    SpassUsable crypto cfg me s spass check w w1 ↔ SpassChecked crypto cfg spass check w w1 := by
  unfold SpassChecked
  by_cases hrefused : SpassRefused cfg spass check
  · obtain ⟨err, hrun, hbits⟩ := @run_pppSetSpass_refused crypto cfg me s spass check w hrefused
    refine iff_of_true ⟨?_, ?_⟩ (.inl hrefused)
    · intro ret s' w' hrun' hset
      obtain ⟨hr, -⟩ := Prod.mk.inj (hrun.symm.trans hrun')
      obtain ⟨rfl, -⟩ := Prod.mk.inj (Option.some.inj hr)
      exact absurd hbits hset
    · intro ret s' w' hrun' _ _
      obtain ⟨hr, -⟩ := Prod.mk.inj (hrun.symm.trans hrun')
      obtain ⟨-, rfl⟩ := Prod.mk.inj (Option.some.inj hr)
      exact ⟨rfl, rfl, rfl⟩
  · obtain ⟨time, w', hrun⟩ := @run_pppSetSpass_set crypto cfg me s spass check w hrefused
    have hbits := (spassErrors_bits _ (verifySpass_lt cfg spass.val)).2
    rw [or_iff_right hrefused, ← verifies_spassBytes]
    constructor
    · intro h
      have haccept := (h.set _ _ _ hrun hbits).1
      rw [accepted_iff] at haccept
      exact haccept.2
    · rintro ⟨hne, hok, hverifies⟩
      refine ⟨?_, ?_⟩
      · intro ret s' w'' hrun' _
        obtain ⟨hr, -⟩ := Prod.mk.inj (hrun.symm.trans hrun')
        obtain ⟨-, rfl⟩ := Prod.mk.inj (Option.some.inj hr)
        refine ⟨accepted_iff.mpr ⟨rfl, hne, hok, hverifies⟩, ?_, ?_⟩
        · intro w2 w3 w4 w5 s3 t s5 hstore huser hfile hload
          obtain ⟨hspass, hset⟩ := load_spass hstore huser hfile hload rfl
          rw [accepted_iff, hspass]
          exact ⟨hset, hne, hok, hverifies⟩
        · intro other w6 haccept
          exact hverifies.unique (accepted_iff.mp haccept).2.2.2
      · intro ret s' w'' hrun' hset
        obtain ⟨hr, -⟩ := Prod.mk.inj (hrun.symm.trans hrun')
        obtain ⟨rfl, -⟩ := Prod.mk.inj (Option.some.inj hr)
        exact absurd hset hbits

/-- The empty password is set, and not accepted. -/
theorem empty_spass_unusable :
    ¬ ∀ (crypto : Crypto) (cfg : Cfg) (me : Pid) (s : State) (spass : CString) (check : Bool)
      (w w1 : World), SpassUsable crypto cfg me s spass check w w1 := by
  intro h
  set w := World.boot (fun _ => none) fun _ => .good
  have hrefused : ¬ SpassRefused configRoot (.ofBuffer []) false := fun hrefused =>
    absurd hrefused.1 (by decide)
  obtain ⟨time, w', hrun⟩ := @run_pppSetSpass_set plainCrypto configRoot 0 aliceState
    (.ofBuffer []) false w hrefused
  have haccept := ((h plainCrypto configRoot 0 aliceState (.ofBuffer []) false w w).set _ _ _ hrun
    (spassErrors_bits _ (verifySpass_lt _ _)).2).1
  exact (accepted_iff.mp haccept).2.1 rfl

end

end Otpasswd
