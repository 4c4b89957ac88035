import ThirdpartyMsvc.Python.NtPath

/-!
# Normal paths

`normpath` of ntpath goes through the components of a path with an index and
deletes the ones that name no step down. What the index has passed is kept here
the last one first. A path whose components are names is normal already
(`normpath_drivePath`), and a name that is followed by two dots leaves nothing
behind (`normComps_parent`).
-/

namespace Python

/-! ## The components -/

def curdir : Text := ['.']

def pardir : Text := ['.', '.']

/-- What two dots do: they are deleted with the name before them, and alone at
the head behind a prefix that ends in a separator. -/
def stepUp (rooted : Bool) : List Text → List Text
  | p :: passed => if p = pardir then pardir :: p :: passed else passed
  | [] => if rooted then [] else [pardir]

/-- The loop of normpath. -/
def normComps (rooted : Bool) : List Text → List Text → List Text
  | passed, [] => passed.reverse
  | passed, c :: comps =>
      if c = [] ∨ c = curdir then normComps rooted passed comps
      else if c = pardir then normComps rooted (stepUp rooted passed) comps
      else normComps rooted (c :: passed) comps

/-- A component that is the name of a file or of a directory. -/
structure IsComponent (c : Text) : Prop where
  isFileName : IsFileName c
  ne_curdir : c ≠ curdir
  ne_pardir : c ≠ pardir

theorem IsComponent.notMem {c : Text} (h : IsComponent c) : '\\' ∉ c ∧ '/' ∉ c :=
  ⟨fun hc => Bool.true_eq_false.mp (h.isFileName.2 _ hc).1,
    fun hc => Bool.true_eq_false.mp (h.isFileName.2 _ hc).1⟩

section comps

variable {rooted : Bool} {passed : List Text}

theorem normComps_cons {c : Text} (hc : IsComponent c) (comps : List Text) :
    normComps rooted passed (c :: comps) = normComps rooted (c :: passed) comps := by
  have hne : ¬ (c = [] ∨ c = curdir) := by
    rintro (h | h)
    · exact hc.isFileName.1 h
    · exact hc.ne_curdir h
  rw [normComps, if_neg hne, if_neg hc.ne_pardir]

/-- Names are passed one by one. -/
theorem normComps_append {names : List Text} (hnames : ∀ c ∈ names, IsComponent c)
    (comps : List Text) :
    normComps rooted passed (names ++ comps) =
      normComps rooted (names.reverse ++ passed) comps := by
  induction names generalizing passed with
  | nil => rfl
  | cons c names ih =>
      rw [List.cons_append, normComps_cons (hnames c (by simp)),
        ih fun d hd => hnames d (by simp [hd])]
      simp

theorem normComps_names {names : List Text} (hnames : ∀ c ∈ names, IsComponent c) :
    normComps rooted [] names = names := by
  have h : normComps rooted [] (names ++ []) = normComps rooted (names.reverse ++ []) [] :=
    normComps_append hnames []
  rw [List.append_nil, List.append_nil] at h
  rw [h, normComps, List.reverse_reverse]

/-- A name and the step up behind it cancel each other. -/
theorem normComps_parent {c : Text} (hc : IsComponent c) (comps : List Text) :
    normComps rooted passed (c :: pardir :: comps) = normComps rooted passed comps := by
  have hdots : ¬ (pardir = [] ∨ pardir = curdir) := by decide
  rw [normComps_cons hc, normComps, if_neg hdots, if_pos rfl, stepUp, if_neg hc.ne_pardir]

/-- The same anywhere in a path. -/
theorem normComps_append_parent {c : Text} (hc : IsComponent c) (before comps : List Text) :
    normComps rooted passed (before ++ c :: pardir :: comps) =
      normComps rooted passed (before ++ comps) := by
  induction before generalizing passed with
  | nil => exact normComps_parent hc comps
  | cons d before ih => rw [List.cons_append, List.cons_append, normComps, normComps, ih, ih, ih]

end comps

/-! ## Paths -/

/-- The prefixes behind which a path is taken as it is. -/
def isSpecial (path : Text) : Bool :=
  ['\\', '\\', '.', '\\'].isPrefixOf path || ['\\', '\\', '?', '\\'].isPrefixOf path

def normpath (path : Text) : Text :=
  if isSpecial path then path
  else
    let (drive, rest) := splitDrive (path.map fun c => if c = '/' then '\\' else c)
    let root := if rest.head? = some '\\' then drive ++ ['\\'] else drive
    let body := if rest.head? = some '\\' then rest.dropWhile (· = '\\') else rest
    let comps := normComps (root.getLast? = some '\\') [] (body.splitOn '\\')
    if root = [] ∧ comps = [] then curdir else root ++ ['\\'].intercalate comps

def dirname (path : Text) : Text := (split path).1

theorem splitUnc_append (a b : Char) (rest : Text) :
    (splitUnc a b rest).1 ++ (splitUnc a b rest).2 = a :: b :: rest := by
  rw [splitUnc]
  split
  case h_1 => rfl
  case h_2 s rest' h =>
    split
    · rfl
    · have hrest : component rest ++ afterComponent rest = rest := List.takeWhile_append_dropWhile
      have hrest' : component rest' ++ afterComponent rest' = rest' :=
        List.takeWhile_append_dropWhile
      rw [h] at hrest
      rw [List.cons_append, List.cons_append, List.append_assoc, List.cons_append, hrest', hrest]

theorem splitDrive_append (p : Text) : (splitDrive p).1 ++ (splitDrive p).2 = p := by
  match p with
  | [] => rfl
  | [a] => rfl
  | a :: b :: rest =>
      rw [splitDrive]
      split
      · exact splitUnc_append a b rest
      · split <;> rfl

/-- dirname only takes characters away. -/
theorem dirname_subset (p : Text) : dirname p ⊆ p := by
  intro c hc
  rw [← splitDrive_append p, List.mem_append]
  rcases List.mem_append.mp hc with hc | hc
  · exact .inl hc
  · have hstrip := stripSeps_prefix (beforeLast (splitDrive p).2)
    exact .inr ((List.rdropWhile_prefix _ _).subset (hstrip.subset hc))

/-- The drives that a path on a Windows machine begins with. -/
inductive IsDrive : Text → Prop
  | letter {a : Char} (ha : isSep a = false) : IsDrive [a, ':']
  | share {host share : Text} (hhost : IsComponent host) (hshare : IsComponent share)
      (hquestion : host ≠ ['?']) : IsDrive ('\\' :: '\\' :: (host ++ '\\' :: share))

namespace IsDrive

variable {drive : Text}

theorem splitDrive (h : IsDrive drive) {p : Text} (hp : BeginsSep p) :
    splitDrive (drive ++ p) = (drive, p) := by
  cases h with
  | letter _ => exact splitDrive_letter _ p
  | share hhost hshare _ =>
      exact splitDrive_share rfl rfl rfl (fun c hc => (hhost.isFileName.2 c hc).1)
        hhost.isFileName.1 hshare.isFileName.2 hshare.isFileName.1 hp

theorem slash_notMem (h : IsDrive drive) : '/' ∉ drive := by
  cases h with
  | letter ha =>
      rw [List.mem_pair]
      rintro (rfl | h)
      · cases ha
      · exact absurd h (by decide)
  | share hhost hshare _ => simp [hhost.notMem.2, hshare.notMem.2]

theorem isSpecial (h : IsDrive drive) (p : Text) : isSpecial (drive ++ p) = false := by
  cases h with
  | letter ha => simp [Python.isSpecial, List.isPrefixOf_cons_cons]
  | share hhost hshare hquestion =>
      rename_i host share
      match host, hhost, hquestion with
      | [], hhost, _ => exact absurd rfl hhost.isFileName.1
      | [c], hhost, hquestion =>
          have hdot : c ≠ '.' := fun hc => hhost.ne_curdir (congrArg (fun c => [c]) hc)
          have hmark : c ≠ '?' := fun hc => hquestion (congrArg (fun c => [c]) hc)
          simp [Python.isSpecial, List.isPrefixOf_cons_cons, hdot.symm, hmark.symm]
      | c :: d :: host, hhost, _ =>
          have hd : '\\' ≠ d := by
            rintro rfl
            exact hhost.notMem.1 (by simp)
          simp [Python.isSpecial, List.isPrefixOf_cons_cons, hd]

end IsDrive

/-- Some components behind a drive. -/
def drivePath (drive : Text) (comps : List Text) : Text := drive ++ comps.flatMap ('\\' :: ·)

theorem drivePath_append (drive : Text) (comps comps' : List Text) :
    drivePath drive (comps ++ comps') = drivePath drive comps ++ comps'.flatMap ('\\' :: ·) := by
  rw [drivePath, List.flatMap_append, ← List.append_assoc]
  rfl

theorem intercalate_eq_flatMap (c : Text) (comps : List Text) :
    '\\' :: ['\\'].intercalate (c :: comps) = (c :: comps).flatMap ('\\' :: ·) := by
  induction comps generalizing c with
  | nil => simp
  | cons d comps ih => rw [List.intercalate_cons_cons, List.flatMap_cons, ← ih]; simp

section normal

variable {drive : Text}

/-- Behind a drive, normpath normalizes the components of a path. -/
theorem normpath_rooted (h : IsDrive drive) {p : Text} (hp : p.head? = some '\\')
    (hslash : '/' ∉ p) :
    normpath (drive ++ p) =
      drive ++ '\\' ::
        ['\\'].intercalate (normComps true [] ((p.dropWhile (· = '\\')).splitOn '\\')) := by
  have hmap : (drive ++ p).map (fun c => if c = '/' then '\\' else c) = drive ++ p := by
    conv_rhs => rw [← List.map_id (drive ++ p)]
    refine List.map_congr_left fun d hd => if_neg ?_
    rintro rfl
    rcases List.mem_append.mp hd with hd | hd
    · exact h.slash_notMem hd
    · exact hslash hd
  have hsplit : splitDrive (drive ++ p) = (drive, p) := by
    apply h.splitDrive
    intro x hx
    rw [hp] at hx
    obtain rfl := Option.some.inj hx
    rfl
  rw [normpath, h.isSpecial, if_neg Bool.false_ne_true, hmap, hsplit]
  simp [hp]

theorem normpath_drivePath_eq (h : IsDrive drive) {c : Text} {comps : List Text}
    (hc : IsComponent c) (hcomps : ∀ d ∈ comps, '\\' ∉ d ∧ '/' ∉ d) :
    normpath (drivePath drive (c :: comps)) =
      drive ++ '\\' :: ['\\'].intercalate (normComps true [] (c :: comps)) := by
  have hmem : ∀ d ∈ c :: comps, '\\' ∉ d ∧ '/' ∉ d :=
    List.forall_mem_cons.mpr ⟨hc.notMem, hcomps⟩
  have hslash : '/' ∉ (c :: comps).flatMap ('\\' :: ·) := by
    rw [List.mem_flatMap]
    rintro ⟨d, hd, hin⟩
    rcases List.mem_cons.mp hin with hin | hin
    · exact absurd hin (by decide)
    · exact (hmem d hd).2 hin
  have hdrop : ((c :: comps).flatMap ('\\' :: ·)).dropWhile (· = '\\') =
      ['\\'].intercalate (c :: comps) := by
    obtain ⟨x, t, rfl, hx, -⟩ := hc.isFileName.head
    have hx' : x ≠ '\\' := by
      rintro rfl
      cases hx
    rw [← intercalate_eq_flatMap]
    cases comps with
    | nil => simp [hx']
    | cons d comps => simp [List.intercalate_cons_cons, hx']
  rw [drivePath, normpath_rooted h rfl hslash, hdrop,
    List.splitOn_intercalate '\\' (fun d hd => (hmem d hd).1) (by simp)]

/-- A separator more behind the drive makes no difference. -/
theorem normpath_drivePath_nil (h : IsDrive drive) {names : List Text} (hne : names ≠ [])
    (hnames : ∀ c ∈ names, IsComponent c) :
    normpath (drivePath drive ([] :: names)) = normpath (drivePath drive names) := by
  obtain ⟨c, names, rfl⟩ := List.exists_cons_of_ne_nil hne
  have hslash : '/' ∉ (c :: names).flatMap ('\\' :: ·) := by
    rw [List.mem_flatMap]
    rintro ⟨d, hd, hin⟩
    rcases List.mem_cons.mp hin with hin | hin
    · exact absurd hin (by decide)
    · exact (hnames d hd).notMem.2 hin
  rw [drivePath, drivePath, normpath_rooted h rfl hslash, normpath_rooted h rfl]
  · rw [List.flatMap_cons, List.cons_append, List.nil_append, List.dropWhile_cons_of_pos (by rfl)]
  · rw [List.flatMap_cons, List.cons_append, List.nil_append, List.mem_cons, not_or]
    exact ⟨by decide, hslash⟩

/-- Names behind a drive are normal. -/
theorem normpath_drivePath (h : IsDrive drive) {names : List Text} (hne : names ≠ [])
    (hnames : ∀ c ∈ names, IsComponent c) :
    normpath (drivePath drive names) = drivePath drive names := by
  obtain ⟨c, names, rfl⟩ := List.exists_cons_of_ne_nil hne
  rw [normpath_drivePath_eq h (hnames c (by simp)) fun d hd => (hnames d (by simp [hd])).notMem,
    normComps_names hnames, intercalate_eq_flatMap, drivePath]

/-- A step down and the step up behind it leave nothing in a normal path. -/
theorem normpath_parent (h : IsDrive drive) {above names : List Text} {c : Text}
    (habove : above ≠ []) (hnames : ∀ d ∈ above ++ c :: names, IsComponent d) :
    normpath (drivePath drive (above ++ c :: pardir :: names)) =
      drivePath drive (above ++ names) := by
  have hup : ∀ d ∈ above, IsComponent d := fun d hd => hnames d (by simp [hd])
  have hrest : ∀ d ∈ above ++ names, IsComponent d := by
    intro d hd
    rcases List.mem_append.mp hd with hd | hd
    · exact hup d hd
    · exact hnames d (by simp [hd])
  have hcomps : normComps true [] (above ++ c :: pardir :: names) = above ++ names := by
    rw [normComps_append_parent (hnames c (by simp)), normComps_names hrest]
  obtain ⟨a, above, rfl⟩ := List.exists_cons_of_ne_nil habove
  rw [List.cons_append] at hcomps ⊢
  rw [normpath_drivePath_eq h (hup a (by simp)), hcomps, List.cons_append,
    intercalate_eq_flatMap, drivePath]
  intro d hd
  rcases List.mem_append.mp hd with hd | hd
  · exact (hup d (by simp [hd])).notMem
  · rcases List.mem_cons.mp hd with rfl | hd
    · exact (hnames d (by simp)).notMem
    · rcases List.mem_cons.mp hd with rfl | hd
      · decide
      · exact (hrest d (by simp [hd])).notMem

/-- dirname of a single name keeps the separator. -/
theorem dirname_drivePath_singleton (h : IsDrive drive) {c : Text} (hc : IsComponent c) :
    dirname (drivePath drive [c]) = drive ++ ['\\'] := by
  have hpath : drivePath drive [c] = drive ++ (['\\'] ++ c) := by simp [drivePath]
  have hbegins : BeginsSep (['\\'] ++ c) := by
    intro x hx
    obtain rfl := Option.some.inj hx
    rfl
  have hends : EndsSep ['\\'] := by
    intro x hx
    obtain rfl := Option.some.inj hx
    rfl
  rw [dirname, split, hpath, h.splitDrive hbegins]
  change drive ++ stripSeps (beforeLast _) = _
  rw [beforeLast_append hends fun x hx => (hc.isFileName.2 x hx).1]
  rfl

/-- dirname takes the last name off, if there is one before it. -/
theorem dirname_drivePath (h : IsDrive drive) {above : List Text} {c : Text} (habove : above ≠ [])
    (hnames : ∀ d ∈ above, IsComponent d) (hc : IsComponent c) :
    dirname (drivePath drive (above ++ [c])) = drivePath drive above := by
  obtain ⟨up, a, rfl⟩ := (List.eq_nil_or_concat above).resolve_left habove
  rw [List.concat_eq_append] at hnames ⊢
  have ha := (hnames a (by simp)).isFileName
  have hlast : ¬ EndsSep ((up ++ [a]).flatMap ('\\' :: ·)) := by
    intro hends
    have hget : ((up ++ [a]).flatMap ('\\' :: ·)).getLast? = some (a.getLast ha.1) := by
      rw [List.flatMap_append, List.flatMap_singleton, List.getLast?_append_of_ne_nil _ (by simp),
        List.getLast?_cons, List.getLast?_eq_getLast_of_ne_nil ha.1]
      rfl
    have hsep := hends _ hget
    rw [(ha.2 _ (List.getLast_mem ha.1)).1] at hsep
    cases hsep
  have hpath : drivePath drive (up ++ [a] ++ [c]) =
      drive ++ ((up ++ [a]).flatMap ('\\' :: ·) ++ ['\\'] ++ c) := by
    simp [drivePath]
  have hbegins : BeginsSep ((up ++ [a]).flatMap ('\\' :: ·) ++ ['\\'] ++ c) := by
    cases up with
    | nil => simp [BeginsSep, isSep]
    | cons d up => simp [BeginsSep, isSep]
  have hends : EndsSep ((up ++ [a]).flatMap ('\\' :: ·) ++ ['\\']) := by
    intro x hx
    rw [List.getLast?_concat] at hx
    obtain rfl := Option.some.inj hx
    rfl
  rw [dirname, split, hpath, h.splitDrive hbegins]
  change drive ++ stripSeps (beforeLast _) = _
  rw [beforeLast_append hends fun x hx => (hc.isFileName.2 x hx).1,
    stripSeps_append_sep _ (by simp) hlast, drivePath]

end normal

end Python
