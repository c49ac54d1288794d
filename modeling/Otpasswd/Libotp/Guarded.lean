import Otpasswd.Libotp.DbMap
import Otpasswd.Libotp.Lookup

/-!
# Otpasswd.Libotp.Guarded — what is known of a stored entry

`Guarded` says something of whatever is stored for a user, `Present` that an
entry is there to stay. Operations that replace the entry are the steps which
have to be looked at.

Main results: `Replaced.guarded` and `Replaced.present`.
-/

namespace Otpasswd

open CText Prog

/-- Whatever is found for the user satisfies `P`, and no line of his is
malformed. -/
structure Guarded (cfg : Cfg) (u : CString) (P : Entry → Prop) (w : World) : Prop where
  lookup : ∀ e, dbLookup (w.file (dbLoc cfg u)) u = some e → P e
  intact : Intact (w.file (dbLoc cfg u)) u

section

variable {cfg : Cfg} {u : CString} {e e' : Entry} {w w' : World} {P : Entry → Prop}

theorem Guarded.of_file (h : Guarded cfg u P w) (hfile : w'.file = w.file) :
    Guarded cfg u P w' := by
  constructor
  · rw [hfile]
    exact h.lookup
  · rw [hfile]
    exact h.intact

theorem Guarded.keeps (h : Guarded cfg u P w) (hw : w'.Keeps w) : Guarded cfg u P w' :=
  h.of_file hw.file

/-- One line of the database is the user's, and no line is malformed. -/
def OneLine (u : CString) (file : Option (List Char)) : Prop :=
  ∃ pre l post, (∀ l ∈ pre, Passed u l) ∧ LineOk l ∧ lineUser l = some u.val ∧
    (∀ l ∈ post, Passed u l) ∧ file = some (unlines pre ++ (l ++ '\n' :: unlines post))

/-- Something is found for the user, and no store of an entry can lose it: calls
do not fail, or there is one line of his only. -/
structure Present (cfg : Cfg) (u : CString) (w : World) : Prop where
  found : ∃ e, dbLookup (w.file (dbLoc cfg u)) u = some e
  whole : w.AllOk ∨ OneLine u (w.file (dbLoc cfg u))

theorem Present.keeps (h : Present cfg u w) (hw : w'.Keeps w) : Present cfg u w' := by
  constructor
  · rw [hw.file]
    exact h.found
  · rw [hw.file, hw.allOk]
    exact h.whole

theorem Replaced.present (h : Replaced cfg u e e' w w') (hv : e'.Valid) (hp : Present cfg u w) :
    Present cfg u w' := by
  rcases hp.whole with hok | ⟨pre, l, post, hpre, hl, hlu, hpost, hfile⟩
  · refine ⟨⟨e', h.lookup_eq hv hok⟩, .inl ?_⟩
    obtain ⟨-, s, -, -, hupdated⟩ := h
    rw [World.AllOk, hupdated.io]
    exact hok
  · obtain ⟨hbefore, s, rfl, rfl, ⟨new, hstored, hnew⟩, -⟩ := h
    have hu := dbLookup_readable hbefore
    rw [hfile] at hstored
    have hbody := hstored.of_once (by simp) hpre hl hlu hpost
    obtain ⟨l', -, hl', hlu', hline⟩ := dbEntryText_line s hu hv
    have hself : w'.file (dbLoc cfg s.username) = new := by rw [hnew, Function.update_self]
    refine ⟨⟨s.entry, ?_⟩, .inr ⟨pre, l', post, hpre, hl', hlu', hpost, ?_⟩⟩
    · rw [hself, hbody]
      exact dbLookup_storeBody hu hv hpre _
    · rw [hself, hbody, hline]
      simp

/-- The database of a user after a store of one of his states. -/
theorem Updated.guarded {s : State} (h : Updated cfg s false w w')
    (hu : ReadableName s.username) (hv : s.entry.Valid) (hP : P s.entry) :
    Guarded cfg s.username P w' := by
  refine ⟨fun e he => ?_, ?_⟩
  · rw [h.lookup hu hv he]
    exact hP
  · obtain ⟨new, hstored, hfile⟩ := h.db
    rw [hfile, Function.update_self]
    exact hstored.intact hu hv

theorem Replaced.guarded (h : Replaced cfg u e e' w w') (hv : e'.Valid)
    (hP : P e') : Guarded cfg u P w' := by
  obtain ⟨hbefore, s, rfl, rfl, hupdated⟩ := h
  exact hupdated.guarded (dbLookup_readable hbefore) hv hP

theorem Updated.guarded_remove {s : State} (h : Updated cfg s true w w') :
    Guarded cfg s.username P w' := by
  refine ⟨fun e he => ?_, ?_⟩
  · rw [h.lookup_remove] at he
    cases he
  · obtain ⟨new, hstored, hfile⟩ := h.db
    rw [hfile, Function.update_self]
    exact hstored.intact_remove

end

end Otpasswd
