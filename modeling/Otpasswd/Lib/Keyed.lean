import Mathlib.Data.List.Basic

/-!
# Otpasswd.Lib.Keyed — lists of records with keys

A list of records, some of which have a key, read as a finite map: `find?` is
the first record with a key, and `replace` puts something in its place, or at
the end when there is none. The other records keep their places.

Main results: `find?_replace_self`, `find?_replace_ne` and
`Distinct.replace`.
-/

namespace Keyed

variable {R K : Type*} [DecidableEq K] (key : R → Option K)

/-- The first record with key `k`. -/
def find? (k : K) (rs : List R) : Option R := rs.find? fun r => key r = some k

/-- Put `new` in place of the first record with key `k`; without a new record
this removes the old one. -/
def replace (k : K) (new : Option R) : List R → List R
  | [] => new.toList
  | r :: rs => if key r = some k then new.toList ++ rs else r :: replace k new rs

/-- No two records have the same key. -/
def Distinct (rs : List R) : Prop :=
  rs.Pairwise fun r r' => ∀ k, key r = some k → key r' ≠ some k

variable {key} {k j : K} {rs pre post : List R} {r : R} {new : Option R}

theorem find?_eq_none (h : ∀ r ∈ rs, key r ≠ some k) : find? key k rs = none := by
  refine List.find?_eq_none.mpr fun r hr => ?_
  simpa using h r hr

theorem find?_split (hpre : ∀ r ∈ pre, key r ≠ some k) (hr : key r = some k) :
    find? key k (pre ++ r :: post) = some r := by
  have hnone := find?_eq_none hpre
  unfold find? at hnone ⊢
  rw [List.find?_append, hnone, Option.none_or, List.find?_cons_of_pos (by simpa using hr)]

/-- A record that is found splits the list. -/
theorem exists_split (h : find? key k rs = some r) :
    ∃ pre post, rs = pre ++ r :: post ∧ (∀ r ∈ pre, key r ≠ some k) ∧ key r = some k := by
  obtain ⟨hr, pre, post, hrs, hpre⟩ := List.find?_eq_some_iff_append.mp h
  refine ⟨pre, post, hrs, fun r' hr' => ?_, by simpa using hr⟩
  simpa using hpre r' hr'

theorem find?_eq_none_iff : find? key k rs = none ↔ ∀ r ∈ rs, key r ≠ some k := by
  constructor
  · intro h r hr
    simpa using List.find?_eq_none.mp h r hr
  · exact find?_eq_none

omit [DecidableEq K] in
/-- The first record with a key is where it is. -/
theorem split_unique {pre' post' : List R} {r' : R} (hpre : ∀ r ∈ pre, key r ≠ some k)
    (hr : key r = some k) (hpre' : ∀ r ∈ pre', key r ≠ some k) (hr' : key r' = some k)
    (h : pre ++ r :: post = pre' ++ r' :: post') : pre = pre' ∧ r = r' ∧ post = post' := by
  induction pre generalizing pre' with
  | nil =>
    cases pre' with
    | nil => exact ⟨rfl, List.cons.inj h⟩
    | cons x pre' =>
      obtain ⟨rfl, -⟩ := List.cons.inj h
      exact absurd hr (hpre' r (by simp))
  | cons y pre ih =>
    obtain ⟨hy, hpre⟩ := List.forall_mem_cons.mp hpre
    cases pre' with
    | nil =>
      obtain ⟨rfl, -⟩ := List.cons.inj h
      exact absurd hr' hy
    | cons x pre' =>
      obtain ⟨rfl, htail⟩ := List.cons.inj h
      obtain ⟨rfl, rest⟩ := ih hpre (List.forall_mem_cons.mp hpre').2 htail
      exact ⟨rfl, rest⟩

theorem replace_absent (h : ∀ r ∈ rs, key r ≠ some k) :
    replace key k new rs = rs ++ new.toList := by
  induction rs with
  | nil => simp [replace]
  | cons r rs ih =>
    obtain ⟨hr, hrs⟩ := List.forall_mem_cons.mp h
    rw [replace, if_neg hr, ih hrs, List.cons_append]

theorem replace_split (hpre : ∀ r ∈ pre, key r ≠ some k) (hr : key r = some k) :
    replace key k new (pre ++ r :: post) = pre ++ new.toList ++ post := by
  induction pre with
  | nil => simp [replace, hr]
  | cons r' pre ih =>
    obtain ⟨hr', hpre⟩ := List.forall_mem_cons.mp hpre
    rw [List.cons_append, replace, if_neg hr', ih hpre]
    rfl

/-- The record that was put is found, and after a removal none is. -/
theorem find?_replace_self (hd : Distinct key rs) (hnew : ∀ r ∈ new, key r = some k) :
    find? key k (replace key k new rs) = new := by
  cases hf : find? key k rs with
  | none =>
    have hrs := find?_eq_none_iff.mp hf
    rw [replace_absent hrs]
    cases new with
    | none => simpa using hf
    | some r => exact find?_split hrs (hnew r rfl)
  | some r' =>
    obtain ⟨pre, post, rfl, hpre, hr'⟩ := exists_split hf
    rw [replace_split hpre hr', List.append_assoc]
    cases new with
    | some r => exact find?_split hpre (hnew r rfl)
    | none =>
      -- no other record has the key of the one removed
      refine find?_eq_none fun x hx => ?_
      rcases List.mem_append.mp hx with hx | hx
      · exact hpre x hx
      · exact (List.pairwise_cons.mp (List.pairwise_append.mp hd).2.1).1 x hx k hr'

/-- Other keys are not affected. -/
theorem find?_replace_ne (hj : j ≠ k) (hnew : ∀ r ∈ new, key r = some k) :
    find? key j (replace key k new rs) = find? key j rs := by
  have hother {r : R} (hr : key r = some k) : ¬ key r = some j := fun h =>
    hj (Option.some.inj (h.symm.trans hr))
  have hput : new.toList.find? (fun r => decide (key r = some j)) = none := by
    refine List.find?_eq_none.mpr fun r hr => ?_
    simpa using hother (hnew r (by simpa using hr))
  cases hf : find? key k rs with
  | none =>
    rw [replace_absent (find?_eq_none_iff.mp hf)]
    unfold find?
    rw [List.find?_append, hput, Option.or_none]
  | some r' =>
    obtain ⟨pre, post, rfl, hpre, hr'⟩ := exists_split hf
    rw [replace_split hpre hr']
    unfold find?
    rw [List.append_assoc, List.find?_append, List.find?_append, List.find?_append, hput,
      List.find?_cons_of_neg (by simpa using hother hr'), Option.none_or]

theorem mem_replace (h : r ∈ replace key k new rs) : r ∈ rs ∨ r ∈ new := by
  induction rs with
  | nil => exact .inr (by simpa [replace] using h)
  | cons r' rs ih =>
    rw [replace] at h
    split_ifs at h
    · rcases List.mem_append.mp h with h | h
      · exact .inr (by simpa using h)
      · exact .inl (List.mem_cons_of_mem _ h)
    · rcases List.mem_cons.mp h with rfl | h
      · exact .inl List.mem_cons_self
      · exact (ih h).imp_left (List.mem_cons_of_mem _)

theorem Distinct.replace (hd : Distinct key rs) (hnew : ∀ r ∈ new, key r = some k) :
    Distinct key (replace key k new rs) := by
  -- a record after the place of the new one has another key
  have hlist : new.toList.Pairwise fun r r' => ∀ k, key r = some k → key r' ≠ some k := by
    cases new <;> simp
  have hkey {r : R} (hr : r ∈ new.toList) : key r = some k := hnew r (by simpa using hr)
  cases hf : find? key k rs with
  | none =>
    have hrs := find?_eq_none_iff.mp hf
    rw [replace_absent hrs]
    refine List.pairwise_append.mpr ⟨hd, hlist, fun x hx y hy j hxj hyj => ?_⟩
    rw [hkey hy] at hyj
    exact hrs x hx (hxj.trans hyj.symm)
  | some r' =>
    obtain ⟨pre, post, rfl, hpre, hr'⟩ := exists_split hf
    rw [replace_split hpre hr', List.append_assoc]
    obtain ⟨h1, h2, h3⟩ := List.pairwise_append.mp hd
    obtain ⟨h4, h5⟩ := List.pairwise_cons.mp h2
    refine List.pairwise_append.mpr ⟨h1, List.pairwise_append.mpr ⟨hlist, h5, ?_⟩, ?_⟩
    · intro x hx y hy j hxj
      rw [hkey hx] at hxj
      obtain rfl := Option.some.inj hxj
      exact h4 y hy k hr'
    · intro x hx y hy j hxj
      rcases List.mem_append.mp hy with hy | hy
      · rw [hkey hy]
        rintro ⟨rfl⟩
        exact hpre x hx hxj
      · exact h3 x hx y (List.mem_cons_of_mem _ hy) j hxj

end Keyed
