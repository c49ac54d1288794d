import Otpasswd.Agent.Handling
import Otpasswd.Libotp.Guarded

/-!
# Otpasswd.Agent.Stored — what a request does to the stored entry

The effects of a request as far as the database goes: the entry of the user is
left, changed, removed, or replaced by a state with a new key.

Main results: `Effect.db` and `DbChange.preserves`.
-/

namespace Otpasswd

open CText Prog

/-- What a request can make of the entry `e` of its user. -/
inductive EntryChange (cfg : Cfg) (privileged : Bool) (req : Request) (e : Entry) : Entry → Prop where
  | set (s s' : State) (lock : ℤ) (hsets : req.Sets cfg privileged (s.loaded lock e) 0 s') :
      EntryChange cfg privileged req e s'.entry
  | counted (htype : req.type = .authenticate ∨ req.type = .skip) :
      EntryChange cfg privileged req e { e with counter := req.counter e.counter }
  | cleared (htype : req.type = .clearRecentFailures) :
      EntryChange cfg privileged req e { e with recentFailures := 0 }

/-- What a request can do to the database of its user. -/
inductive DbChange (cfg : Cfg) (a : Agent) (w : World) (req : Request) (w' : World) : Prop where
  | kept (hw : w'.Keeps w)
  | put (htype : req.type = .stateStore) (s : State) (hs : a.s = some s) (hkey : s.newKey = true)
      (h : Updated cfg s false w w')
  | removed (htype : req.type = .keyRemove) (s : State) (hu : s.username = a.username)
      (h : Updated cfg s true w w')
  | replaced (e e' : Entry) (hchange : EntryChange cfg a.privileged req e e')
      (h : Replaced cfg a.username e e' w w')

section

variable {crypto : Crypto} {cfg : Cfg} {me : Pid} {a : Agent} {req : Request} {w w' : World}
  {r : Option (ℕ × Agent)} {e e' : Entry} {u : CString}

theorem EntryChange.valid {privileged : Bool} (h : EntryChange cfg privileged req e e')
    (hv : e.Valid) : e'.Valid := by
  cases h with
  | set s s' lock hsets =>
    refine hsets.valid ?_
    rw [loaded_entry]
    exact hv
  | counted => exact ⟨hv.1, hv.2, hv.3, hv.4, hv.5⟩
  | cleared => exact ⟨hv.1, hv.2, hv.3, hv.4, hv.5⟩

theorem Effect.db (h : Effect crypto cfg me a w req r w') : DbChange cfg a w req w' := by
  cases h with
  | refused hw | read _ hw | dropped _ hw | switched _ hw | created _ _ hw => exact .kept hw
  | loaded _ _ _ _ _ _ hw => exact .kept hw
  | generated _ _ _ _ _ hw => exact .kept hw
  | changed _ _ _ _ _ _ _ hw => exact .kept hw
  | unset _ _ _ _ _ _ _ _ _ _ hw => exact .kept hw
  | tried _ _ _ hw => exact .kept hw
  | put htype s hs hkey h => exact .put htype s hs hkey h
  | removed htype hs s lock e hfresh hlook h =>
    exact .removed htype (s.loaded lock e) hfresh.username h
  | set s s' lock e hnew hfresh hsets hb h => exact .replaced e _ (.set s s' lock hsets) h
  | counted htype s hs e hnew hallowed hskip h => exact .replaced e _ (.counted htype) h
  | cleared htype e h => exact .replaced e _ (.cleared htype) h

theorem Handling.db (h : Handling crypto cfg me a w req r w') : DbChange cfg a w req w' := by
  rcases h with ⟨hw, -⟩ | ⟨-, -, h⟩
  · exact .kept hw
  · exact h.db

/-- The rule for a property of the stored entry: it has to survive the changes
of the request, and a state that can be stored with a new key has to have it. -/
theorem DbChange.preserves {P : Entry → Prop} (h : DbChange cfg a w req w')
    (hu : ReadableName a.username) (hP : Guarded cfg a.username P w)
    (hput : req.type = .stateStore → ∀ s, a.s = some s → s.newKey = true →
      s.username = a.username ∧ s.entry.Valid ∧ P s.entry)
    (hchange : ∀ e e', dbLookup (w.file (dbLoc cfg a.username)) a.username = some e → P e →
      EntryChange cfg a.privileged req e e' → P e') :
    Guarded cfg a.username P w' := by
  cases h with
  | kept hw => exact hP.keeps hw
  | put htype s hs hkey h =>
    obtain ⟨hname, hv, hPs⟩ := hput htype s hs hkey
    rw [← hname] at hu ⊢
    exact h.guarded hu hv hPs
  | removed htype s hname h =>
    rw [← hname]
    exact h.guarded_remove
  | replaced e e' hchange' h =>
    have hv := hchange'.valid (dbLookup_valid h.before)
    exact h.guarded hv (hchange e e' h.before (hP.lookup e h.before) hchange')

/-- An entry stays where it is unless the request stores a new key or removes
the old one. -/
theorem DbChange.present (h : DbChange cfg a w req w') (hp : Present cfg a.username w)
    (hput : req.type = .stateStore → ∀ s, a.s = some s → s.newKey = false)
    (hremove : req.type ≠ .keyRemove) : Present cfg a.username w' := by
  cases h with
  | kept hw => exact hp.keeps hw
  | put htype s hs hkey h => simp [hput htype s hs] at hkey
  | removed htype s hname h => exact absurd htype hremove
  | replaced e e' hchange h => exact h.present (hchange.valid (dbLookup_valid h.before)) hp

end

end Otpasswd
