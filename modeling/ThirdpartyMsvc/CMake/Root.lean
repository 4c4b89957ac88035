import ThirdpartyMsvc.CMake.Packages

/-!
# The root of a bundle

Every file of the bundle finds the root from its own path: the targets files by
taking components off it, the configuration files of the packages by going up
from their directory. Both give the root, wherever the bundle is
(`prefixOf_file`, `absolute_up`), if no name on the way to it has a meaning for
cmake.
-/

namespace CMake

/-- The name of a directory that has no meaning for cmake. -/
structure IsDirectoryName (n : Text) : Prop where
  element : IsElement n
  not_dot : n ≠ ".".toList ∧ n ≠ "..".toList
  slash : '/' ∉ n

/-- An absolute path below a drive. -/
structure Root where
  drive : Char
  names : List Text
  isDrive : drive ∉ [';', '[', ']', '\\', '/']
  ne_nil : names ≠ []
  isName : ∀ n ∈ names, IsDirectoryName n

/-- The root C:/ThirdParty. -/
def Root.thirdParty : Root where
  drive := 'C'
  names := ["ThirdParty".toList]
  isDrive := by decide
  ne_nil := by decide
  isName := by
    intro n hn
    rw [List.mem_singleton.mp hn]
    exact ⟨⟨by decide, by decide⟩, by decide, by decide⟩

/-! ## Directories -/

/-- The last component is dropped, up to the separator in front of it. -/
theorem rdropWhile_separator (u : Text) {c : Char} {n : Text} (hn : c ∉ n) :
    (u ++ c :: n).rdropWhile (· ≠ c) = u ++ [c] := by
  induction n using List.reverseRecOn with
  | nil => exact List.rdropWhile_concat_neg _ _ _ (by simp)
  | append_singleton n d ih =>
      have hd : d ≠ c := fun h => hn (by simp [h])
      have happend : u ++ c :: (n ++ [d]) = (u ++ c :: n) ++ [d] := by simp
      rw [happend, List.rdropWhile_concat_pos _ _ _ (by simpa using hd),
        ih fun h => hn (List.mem_append_left _ h)]

theorem directory_append {r n : Text} (hr : 2 < r.length) (hn : '/' ∉ n) :
    directory (r ++ '/' :: n) = r := by
  rw [directory, rdropWhile_separator r hn, if_neg]
  · exact List.dropLast_concat
  · have hlength : (r ++ ['/']).length = r.length + 1 := by simp
    rintro (h | ⟨h, -⟩)
    · have hone := congrArg List.length h
      rw [hlength, List.length_singleton] at hone
      omega
    · omega

namespace Root

variable (r : Root)

def text : Text := r.drive :: ':' :: r.names.flatMap ('/' :: ·)

theorem two_lt_length : 2 < r.text.length := by
  obtain ⟨n, ns, hns⟩ := List.exists_cons_of_ne_nil r.ne_nil
  simp [text, hns]

theorem isElement_text : IsElement r.text := by
  refine ⟨by simp [text], fun c hc => ?_⟩
  rcases List.mem_cons.mp hc with rfl | hc
  · have h := r.isDrive
    simp at h ⊢
    tauto
  · rcases List.mem_cons.mp hc with rfl | hc
    · decide
    · obtain ⟨n, hn, hc⟩ := List.mem_flatMap.mp hc
      rcases List.mem_cons.mp hc with rfl | hc
      · decide
      · exact (r.isName n hn).element.plain c hc

/-- The path of a file in a directory of the bundle. -/
theorem directory_file (d : Text) {n : Text} (hn : '/' ∉ n) :
    directory (r.text ++ d ++ '/' :: n) = r.text ++ d := by
  refine directory_append ?_ hn
  have h := r.two_lt_length
  rw [List.length_append]
  omega

theorem splitOn_names {ns : List Text} (hns : ∀ n ∈ ns, '/' ∉ n) {u : Text} (hu : '/' ∉ u)
    (t : Text) : (u ++ (ns.flatMap ('/' :: ·) ++ '/' :: t)).splitOn '/' =
      u :: (ns ++ t.splitOn '/') := by
  induction ns generalizing u with
  | nil => exact List.splitOn_append_cons_self_of_not_mem hu _
  | cons n ns ih =>
      have hrest := ih (fun m hm => hns m (List.mem_cons_of_mem _ hm)) (hns n (by simp))
      rw [List.flatMap_cons, List.append_assoc, List.cons_append,
        List.splitOn_append_cons_self_of_not_mem hu, hrest, List.cons_append]

theorem foldl_collapse {ns : List Text} (hns : ∀ n ∈ ns, IsDirectoryName n) (stack : List Text) :
    ns.foldl collapse stack = stack ++ ns := by
  induction ns generalizing stack with
  | nil => simp
  | cons n ns ih =>
      have hn := hns n (by simp)
      rw [List.foldl_cons, collapse, if_neg (not_or.mpr ⟨hn.element.ne_nil, hn.not_dot.1⟩),
        if_neg hn.not_dot.2, ih fun m hm => hns m (List.mem_cons_of_mem _ hm), List.append_assoc,
        List.singleton_append]

theorem separator_intercalate {ns : List Text} (hns : ns ≠ []) :
    '/' :: ['/'].intercalate ns = ns.flatMap ('/' :: ·) := by
  induction ns with
  | nil => exact absurd rfl hns
  | cons n ns ih =>
      cases ns with
      | nil => simp
      | cons m ns =>
          rw [List.intercalate_cons_cons, List.flatMap_cons, ← ih (List.cons_ne_nil _ _)]
          simp

/-- Going up from a directory of the bundle leads to the root. -/
theorem absolute_up {t : Text} (ht : (t.splitOn '/').foldl collapse r.names = r.names) :
    absolute (r.text ++ '/' :: t) = r.text := by
  have hdrive : '/' ∉ [r.drive, ':'] := by
    have h := r.isDrive
    simp at h ⊢
    tauto
  have hsplit : (r.text ++ '/' :: t).splitOn '/' = [r.drive, ':'] :: (r.names ++ t.splitOn '/') :=
    splitOn_names (fun n hn => (r.isName n hn).slash) hdrive t
  rw [absolute, hsplit]
  simp only [List.foldl_append, foldl_collapse r.isName, List.nil_append, ht]
  rw [separator_intercalate r.ne_nil]
  rfl

theorem absolute_cmake : absolute (r.text ++ "/cmake".toList ++ "/../".toList) = r.text := by
  refine (congrArg absolute (List.append_assoc ..)).trans
    (r.absolute_up (t := "cmake/../".toList) ?_)
  have hsplit : "cmake/../".toList.splitOn '/' = ["cmake".toList, "..".toList, []] := by decide
  rw [hsplit]
  simp [collapse]

theorem absolute_hdf5 : absolute (r.text ++ "/cmake/hdf5".toList ++ "/../../".toList) = r.text := by
  refine (congrArg absolute (List.append_assoc ..)).trans
    (r.absolute_up (t := "cmake/hdf5/../../".toList) ?_)
  have hsplit : "cmake/hdf5/../../".toList.splitOn '/' =
      ["cmake".toList, "hdf5".toList, "..".toList, "..".toList, []] := by decide
  rw [hsplit]
  simp [collapse]

/-! ## Prefixes -/

/-- A targets file that finds the root, in a directory that is an element. -/
structure Finds (F : TargetsFile) (file : Text) : Prop where
  prefixOf : F.prefixOf file = r.text
  element : IsElement (directory file)

theorem text_ne_root : r.text ≠ ['/'] := by
  intro h
  have hlength := congrArg List.length h
  have htwo := r.two_lt_length
  rw [List.length_singleton] at hlength
  omega

/-- A targets file in the directory cmake. -/
theorem finds_cmake {F : TargetsFile} (hdepth : F.depth = 2) {n : Text} (hn : '/' ∉ n) :
    r.Finds F (r.text ++ ("/cmake/".toList ++ n)) := by
  have hfile : directory (r.text ++ ("/cmake/".toList ++ n)) = r.text ++ "/cmake".toList := by
    rw [← r.directory_file "/cmake".toList hn, List.append_assoc]
    rfl
  have hcmake : directory (r.text ++ "/cmake".toList) = r.text :=
    directory_append r.two_lt_length (by decide)
  refine ⟨?_, ?_⟩
  · rw [TargetsFile.prefixOf, hdepth]
    simp only [Function.iterate_succ, Function.iterate_zero, Function.comp_apply, id, hfile, hcmake]
    rw [if_neg]
    simp [r.text_ne_root]
  · rw [hfile]
    exact r.isElement_text.append (by decide)

/-- hdf5-targets.cmake has a directory of its own. -/
theorem finds_hdf5 : r.Finds hdf5Targets
    (r.text ++ "/cmake/hdf5/hdf5-targets.cmake".toList) := by
  have hfile : directory (r.text ++ "/cmake/hdf5/hdf5-targets.cmake".toList) =
      r.text ++ "/cmake/hdf5".toList := by
    rw [← r.directory_file "/cmake/hdf5".toList (n := "hdf5-targets.cmake".toList) (by decide),
      List.append_assoc]
    rfl
  have hhdf5 : directory (r.text ++ "/cmake/hdf5".toList) = r.text ++ "/cmake".toList := by
    rw [← r.directory_file "/cmake".toList (n := "hdf5".toList) (by decide), List.append_assoc]
    rfl
  have hcmake : directory (r.text ++ "/cmake".toList) = r.text :=
    directory_append r.two_lt_length (by decide)
  refine ⟨?_, ?_⟩
  · rw [TargetsFile.prefixOf, show hdf5Targets.depth = 3 from rfl]
    simp only [Function.iterate_succ, Function.iterate_zero, Function.comp_apply, id, hfile, hhdf5,
      hcmake]
    rw [if_neg]
    simp [r.text_ne_root]
  · rw [hfile]
    exact r.isElement_text.append (by decide)

end Root

end CMake
