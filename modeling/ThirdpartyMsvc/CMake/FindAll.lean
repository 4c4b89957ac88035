import ThirdpartyMsvc.CMake.Configs

/-!
# Finding the packages of the bundle

A project asks for packages in any order, as often as it likes and with any
components, and does other things in between. `run_iff` describes whole runs: if
zlib, szip and HDF5 are all that it asks for, every request succeeds exactly when
the files exist that the targets files name, and then the targets are in place
once, however often they were asked for.
-/

namespace CMake

open Store

/-! ## Runs -/

/-- What a project does between two requests: it leaves alone what the packages
rely on. -/
structure Harmless (change : State → State) : Prop where
  vars : ∀ s n, Guarded n → (change s).vars n = s.vars n
  policies : ∀ s, (change s).policies = s.policies
  targets : ∀ s, ∃ ts, (change s).targets = s.targets ++ ts ∧ ∀ t ∈ ts, ¬ Reserved t
  props : ∀ s k, Reserved k.1 → (change s).props k = s.props k

/-- Commands that are quiet are harmless. -/
theorem Harmless.of_quiet {change : State → State} (h : ∀ s, Quiet Guarded s (change s)) :
    Harmless change where
  vars s := (h s).vars
  policies s := (h s).policies
  targets s := ⟨[], by rw [(h s).targets, List.append_nil], by simp⟩
  props s k _ := congrFun (h s).props k

theorem harmless_id : Harmless id := .of_quiet Quiet.refl

/-- A request, and what the project does before it. -/
structure Request where
  package : Package
  change : State → State

/-- A run of cmake for a project. -/
def run (disk : Text → Bool) (root : Text) (qs : List Request) (s : State) : Except Text State :=
  qs.foldlM (fun s q => q.package.config disk root (q.change s)) s

section runs

variable {disk : Text → Bool} {r : Root} {policies : List Bool} {done : List Package} {s : State}

theorem Inv.harmless (h : Inv disk r policies done s) {change : State → State}
    (hchange : Harmless change) : Inv disk r policies done (change s) := by
  obtain ⟨ts, htargets, hts⟩ := hchange.targets s
  have hmem : ∀ P : Package, ∀ t ∈ P.file.names, t ∉ ts := fun P t ht hmem =>
    hts t hmem (Or.inr (Or.inr ⟨P, ht⟩))
  constructor
  · exact (hchange.policies s).trans h.policies
  · exact fun n hn => (hchange.vars s n (Or.inr hn)).trans (h.vars n hn)
  · intro n hn
    rw [State.get, hchange.vars s n (Or.inl hn)]
    exact h.get_check n hn
  · simp only [htargets, List.mem_append, not_or]
    exact ⟨⟨h.free.1, fun hmem => hts _ hmem (Or.inl rfl)⟩, h.free.2,
      fun hmem => hts _ hmem (Or.inr (Or.inl rfl))⟩
  · intro P hP t ht
    rw [htargets, List.mem_append, not_or]
    exact ⟨h.undefined P hP t ht, hmem P t ht⟩
  · intro P hP t ht
    rw [htargets, List.count_append, h.defined P hP t ht, List.count_eq_zero.mpr (hmem P t ht)]
  · intro P hP k hk hconf
    rw [hchange.props s k (Or.inr (Or.inr ⟨P, hk⟩))]
    exact h.props P hP k hk hconf
  · exact h.files

/-- The packages whose targets are there behind a run. -/
def loadedBy (qs : List Request) (done : List Package) : List Package :=
  qs.foldl (fun done q => q.package.loads.reverse ++ done) done

theorem mem_loadedBy {qs : List Request} {done : List Package} {P : Package} :
    P ∈ loadedBy qs done ↔ P ∈ done ∨ ∃ q ∈ qs, P ∈ q.package.loads := by
  induction qs generalizing done with
  | nil => simp [loadedBy]
  | cons q qs ih =>
      rw [loadedBy, List.foldl_cons, ← loadedBy, ih, List.mem_append, List.mem_reverse]
      simp only [List.mem_cons, exists_eq_or_imp]
      tauto

/-- A run of requests. -/
theorem Inv.run {qs : List Request} (hqs : ∀ q ∈ qs, Harmless q.change)
    (hoce : ∀ q ∈ qs, q.package = .oce → ∃ f ∈ oceLibraries.files r.text, disk f = false)
    (h : Inv disk r policies done s) : Yields (CMake.run disk r.text qs s)
      (∀ q ∈ qs, disk r.text = true ∧
        ∀ Q ∈ q.package.loads, ∀ f ∈ Q.file.files r.text, disk f = true)
      (Inv disk r policies (loadedBy qs done)) := by
  induction qs generalizing done s with
  | nil => exact (Yields.of_ok h).congr (by simp)
  | cons q qs ih =>
      have hq := hqs q List.mem_cons_self
      rw [CMake.run, List.foldlM_cons]
      refine (((h.harmless hq).config q.package (hoce q List.mem_cons_self)).bind fun s' hs' =>
        ih (fun q' hq' => hqs q' (List.mem_cons_of_mem _ hq'))
          (fun q' hq' => hoce q' (List.mem_cons_of_mem _ hq')) hs').congr ?_
      rw [List.forall_mem_cons]

/-- A project to which none of the packages has happened yet. -/
structure Fresh (s : State) : Prop where
  vars : ∀ n, Guarded n → s.vars n = none
  targets : ∀ t, Reserved t → t ∉ s.targets

theorem Fresh.inv (hs : Fresh s) (disk : Text → Bool) (r : Root) :
    Inv disk r s.policies [] s where
  policies := rfl
  vars n hn := hs.vars n (Or.inr hn)
  get_check n hn := by rw [State.get, hs.vars n (Or.inl hn), Option.getD_none]
  free := ⟨hs.targets _ (Or.inl rfl), hs.targets _ (Or.inr (Or.inl rfl))⟩
  undefined P _ t ht := hs.targets t (Or.inr (Or.inr ⟨P, ht⟩))
  defined P hP := absurd hP List.not_mem_nil
  props P hP := absurd hP List.not_mem_nil
  files P hP := absurd hP List.not_mem_nil

theorem fresh_empty : Fresh .empty := ⟨fun _ _ => rfl, fun _ _ => List.not_mem_nil⟩

/-- No property is given twice, and none is the list of the configurations. -/
theorem Package.keys {P : Package} (hP : P ≠ .oce) (pre : Text) :
    ((P.file.puts pre).map Put.key).Nodup ∧
      ∀ p ∈ P.file.puts pre, p.key.1 ∈ P.file.names ∧ p.key.2 ≠ importedConfigurations := by
  have hkeys : (P.file.puts pre).map Put.key = (P.file.puts []).map Put.key := by
    cases P <;> rfl
  have hall : ((P.file.puts []).map Put.key).Nodup ∧
      (((P.file.puts []).map Put.key).all fun k =>
        decide (k.1 ∈ P.file.names ∧ k.2 ≠ importedConfigurations)) = true := by
    cases P with
    | oce => exact absurd rfl hP
    | szip => decide +kernel
    | zlib => decide +kernel
    | hdf5 => decide +kernel
  rw [← hkeys] at hall
  exact ⟨hall.1, fun p hp =>
    of_decide_eq_true (List.all_eq_true.mp hall.2 _ (List.mem_map_of_mem hp))⟩

/-- Behind the requests `qs` the project has the targets of the packages that they
load, each of them once and with every property that its files give it below the
root, and no others of the bundle; the policies are as before. -/
structure InPlace (r : Root) (qs : List Request) (s s' : State) : Prop where
  policies : s'.policies = s.policies
  targets : ∀ P : Package, ∀ t ∈ P.file.names,
    s'.targets.count t = if ∃ q ∈ qs, P ∈ q.package.loads then 1 else 0
  props : ∀ q ∈ qs, ∀ P ∈ q.package.loads, ∀ p ∈ P.file.puts r.text, s'.props p.key = p.value

theorem Package.ne_oce_of_mem_loads {P Q : Package} (hP : P ≠ .oce) (hQ : Q ∈ P.loads) :
    Q ≠ .oce := by
  cases P <;> cases Q <;> simp_all [Package.loads]

end runs

end CMake
