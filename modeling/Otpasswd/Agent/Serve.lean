import Otpasswd.Agent.Request
import Otpasswd.Libotp.PppFree

/-!
# Otpasswd.Agent.Serve — the main loop of the agent

`main_loop` of `agent.c` handles the requests of one client, one after the
other, until one of them ends it. A condition on the steps of such a run is a
predicate on the agent, the world and the request at the time it is read
(`Along`); `wp_mainLoop` is the induction over the requests.
-/

namespace Otpasswd

open CText

/-- `main_loop`, on the requests that the client sends. -/
def mainLoop (crypto : Crypto) (cfg : Cfg) (a : Agent) : List Request → SysM (ℕ × Agent)
  | [] => return (0, a)
  | req :: reqs => do
    let (retval, a) ← requestHandle crypto cfg a req
    if retval ≠ 0 then return (retval, a) else mainLoop crypto cfg a reqs

open Prog

section Along

variable (crypto : Crypto) (cfg : Cfg) (me : Pid)

/-- What handling a request returns, and the world after it. -/
def handled (a : Agent) (w : World) (req : Request) : Option (ℕ × Agent) × World :=
  (requestHandle crypto cfg a req).run (Sys.exec me) w

/-- Neither the outcomes to come nor the users change. -/
theorem handled_io {a : Agent} {w w' : World} {req : Request} {r : Option (ℕ × Agent)}
    (h : handled crypto cfg me a w req = (r, w')) : w'.io = w.io ∧ w'.uid = w.uid := by
  unfold handled at h
  have hio := run_io me (requestHandle crypto cfg a req) w
  have huid := run_uid me (requestHandle crypto cfg a req) w
  rw [h] at hio huid
  exact ⟨hio, huid⟩

/-- Every request the main loop reads meets the condition at that time. -/
def Along (cond : Agent → World → Request → Prop) : Agent → World → List Request → Prop
  | _, _, [] => True
  | a, w, req :: reqs =>
    cond a w req ∧
      ∀ a' w', handled crypto cfg me a w req = (some (0, a'), w') → Along cond a' w' reqs

/-- A condition on the requests alone beside one on the steps. -/
theorem Along.and_forall {cond : Agent → World → Request → Prop} {P : Request → Prop} {a : Agent}
    {w : World} {reqs : List Request} (h : Along crypto cfg me cond a w reqs)
    (hP : ∀ req ∈ reqs, P req) :
    Along crypto cfg me (fun a w req => P req ∧ cond a w req) a w reqs := by
  induction reqs generalizing a w with
  | nil => trivial
  | cons req reqs ih =>
    refine ⟨⟨hP req List.mem_cons_self, h.1⟩, fun a' w' hrun => ?_⟩
    exact ih (h.2 a' w' hrun) fun r hr => hP r (List.mem_cons_of_mem _ hr)

theorem Along.mono {cond cond' : Agent → World → Request → Prop} {a : Agent} {w : World}
    {reqs : List Request} (h : Along crypto cfg me cond a w reqs)
    (hcond : ∀ a w req, cond a w req → cond' a w req) : Along crypto cfg me cond' a w reqs := by
  induction reqs generalizing a w with
  | nil => trivial
  | cons req reqs ih => exact ⟨hcond a w req h.1, fun a' w' hrun => ih (h.2 a' w' hrun)⟩

theorem Along.take {cond : Agent → World → Request → Prop} {a : Agent} {w : World}
    {reqs : List Request} (h : Along crypto cfg me cond a w reqs) (n : ℕ) :
    Along crypto cfg me cond a w (reqs.take n) := by
  induction reqs generalizing a w n with
  | nil => simpa using h
  | cons req reqs ih =>
    cases n with
    | zero => trivial
    | succ n => exact ⟨h.1, fun a' w' hrun => ih (h.2 a' w' hrun) n⟩

/-- What is asked of the rest of a run, after a request that was handled. -/
def Onward (P : Agent → World → Prop) : Option (ℕ × Agent) × World → Prop
  | (some (0, a'), w') => P a' w'
  | _ => True

theorem onward_iff {P : Agent → World → Prop} {x : Option (ℕ × Agent) × World} :
    Onward P x ↔ ∀ a' w', x = (some (0, a'), w') → P a' w' := by
  rcases x with ⟨_ | ⟨_ | n, a'⟩, w'⟩
  · exact ⟨fun _ _ _ h => (nomatch h), fun _ => trivial⟩
  · refine ⟨fun h => ?_, fun h => h a' w' rfl⟩
    rintro _ _ ⟨rfl, rfl⟩
    exact h
  · exact ⟨fun _ _ _ h => (nomatch h), fun _ => trivial⟩

instance {P : Agent → World → Prop} [∀ a w, Decidable (P a w)] :
    ∀ x, Decidable (Onward P x)
  | (some (0, a'), w') => inferInstanceAs (Decidable (P a' w'))
  | (some (_ + 1, _), _) => isTrue trivial
  | (none, _) => isTrue trivial

/-- Whether a condition that can be checked holds along a run. -/
instance Along.decidable {cond : Agent → World → Request → Prop}
    [∀ a w req, Decidable (cond a w req)] :
    ∀ reqs a w, Decidable (Along crypto cfg me cond a w reqs)
  | [], _, _ => isTrue trivial
  | req :: reqs, a, w =>
    have : ∀ a w, Decidable (Along crypto cfg me cond a w reqs) := Along.decidable reqs
    decidable_of_iff (cond a w req ∧
      Onward (fun a' w' => Along crypto cfg me cond a' w' reqs) (handled crypto cfg me a w req))
      (and_congr Iff.rfl onward_iff)

end Along

section Rules

variable {crypto : Crypto} {cfg : Cfg} {me : Pid} {cond : Agent → World → Request → Prop}

/-- The main loop stops only for what handling one of the requests stops for. -/
theorem mainLoop_stopsFor {I : Agent → World → Prop} {S : Stop → Prop}
    (hstep : ∀ a w req, I a w → cond a w req →
      StopsFor (Sys.exec me) S (requestHandle crypto cfg a req) w ∧
        wp (Sys.exec me) (requestHandle crypto cfg a req)
          (fun r w' => ∀ a', r = some (0, a') → I a' w') w)
    {a : Agent} {w : World} {reqs : List Request} (hI : I a w)
    (hcond : Along crypto cfg me cond a w reqs) :
    StopsFor (Sys.exec me) S (mainLoop crypto cfg a reqs) w := by
  induction reqs generalizing a w with
  | nil => exact stopsFor_ret _
  | cons req reqs ih =>
    obtain ⟨hreq, hrest⟩ := hcond
    obtain ⟨hstops, hend⟩ := hstep a w req hI hreq
    refine stopsFor_seq hstops (wp_mono (wp_and hend wp_run) ?_)
    rintro r w' ⟨hI', hrun⟩ ⟨retval, a'⟩ rfl
    simp only
    by_cases hret : retval = 0
    · subst hret
      rw [if_neg (not_not.mpr rfl)]
      exact ih (hI' a' rfl) (hrest a' w' hrun)
    · rw [if_pos hret]
      exact stopsFor_ret _

/-- The rule for the main loop: `I` holds whenever a request is read, and the
loop is left with `Q`. The number of requests read so far may be used. -/
theorem wp_mainLoop {I : ℕ → Agent → World → Prop} {Q : Option (ℕ × Agent) → World → Prop}
    (hstep : ∀ n a w req, I n a w → cond a w req →
      wp (Sys.exec me) (requestHandle crypto cfg a req) (fun r w' =>
        (∃ a', r = some (0, a') ∧ I (n + 1) a' w') ∨ (∀ a', r ≠ some (0, a')) ∧ Q r w') w)
    {n : ℕ} {a : Agent} {w : World} {reqs : List Request} (hI : I n a w)
    (hcond : Along crypto cfg me cond a w reqs)
    (hdone : ∀ a' w', I (n + reqs.length) a' w' → Q (some (0, a')) w') :
    wp (Sys.exec me) (mainLoop crypto cfg a reqs) Q w := by
  induction reqs generalizing n a w with
  | nil => exact hdone a w hI
  | cons req reqs ih =>
    obtain ⟨hreq, hrest⟩ := hcond
    have hhandle := hstep n a w req hI hreq
    rcases hrun : handled crypto cfg me a w req with ⟨r, w'⟩
    unfold handled at hrun
    unfold wp at hhandle
    rw [hrun] at hhandle
    rw [mainLoop]
    rcases hhandle with ⟨a', rfl, hI'⟩ | ⟨hne, hQ⟩
    · -- the loop goes on
      refine wp_run_bind hrun ?_
      simp only
      rw [if_neg (by simp)]
      refine ih hI' (hrest a' w' hrun) fun a'' w'' h => hdone a'' w'' ?_
      rwa [List.length_cons, Nat.add_comm reqs.length, ← Nat.add_assoc]
    · rcases r with _ | ⟨retval, a'⟩
      · unfold wp
        rw [run_bind, hrun]
        exact hQ
      · refine wp_run_bind hrun ?_
        simp only
        have hret : retval ≠ 0 := by
          rintro rfl
          exact hne a' rfl
        rw [if_pos hret]
        exact hQ

end Rules

/-! ## A client to try things with -/

/-- A request without arguments. -/
def Request.plain (type : ReqType) : Request := ⟨type, 0, 0, numI 0, ⟨[], nul_not_mem_nil⟩⟩

/-- `SET_INT` of the field with this number. -/
def Request.setInt (field value : Word32) : Request :=
  { Request.plain .setInt with int := field, int2 := value }

end Otpasswd
