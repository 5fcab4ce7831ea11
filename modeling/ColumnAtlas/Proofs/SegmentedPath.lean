import ColumnAtlas.FieldPath

namespace ColumnAtlas.FieldPath

/-- What the segments of a path are: at least one, with no separator in any of them. Only the last
one must not be empty. -/
structure Segmented (segments : List String) : Prop where
  filled : segments ≠ []
  apart : ∀ segment ∈ segments, separator ∉ segment.toList
  last : segments.getLast? ≠ some ""

variable {path segment : String} {segments front : List String}

theorem split_eq_splitOn (cs : List Char) : split cs = cs.splitOn separator := by
  induction cs with
  | nil => rfl
  | cons c cs ih =>
    rw [split, ih]
    simp only [List.splitOn, List.splitOnP_cons_eq_if_modifyHead, beq_iff_eq]
    split
    next => rfl
    next =>
      cases hs : List.splitOnP (· == separator) cs with
      | nil => exact absurd (ih.trans hs) (split_ne_nil cs)
      | cons seg segs => rfl

theorem intercalate_split (path : String) :
    ".".intercalate ((split path.toList).map String.ofList) = path := by
  have hsame : String.toList ∘ String.ofList = id := funext fun _ => String.toList_ofList
  apply String.toList_injective
  rw [String.toList_intercalate, List.map_map, hsame, List.map_id, split_eq_splitOn]
  exact List.intercalate_splitOn separator

theorem split_intercalate (hne : segments ≠ [])
    (h : ∀ segment ∈ segments, separator ∉ segment.toList) :
    split (".".intercalate segments).toList = segments.map String.toList := by
  rw [String.toList_intercalate, split_eq_splitOn]
  refine List.splitOn_intercalate separator (fun cs hcs => ?_) (by simpa using hne)
  obtain ⟨segment, hsegment, rfl⟩ := List.mem_map.mp hcs
  exact h segment hsegment

/-- A joined path ends as its last segment does, or with a separator if that is empty. -/
theorem getLast?_intercalate_concat (front : List String) (segment : String) :
    (".".intercalate (front ++ [segment])).toList.getLast? =
      segment.toList.getLast?.or (if front = [] then none else some separator) := by
  cases front with
  | nil => simp
  | cons first rest =>
    rw [String.intercalate_append_of_ne_nil (List.cons_ne_nil _ _) (List.cons_ne_nil _ _),
      String.intercalate_singleton, String.toList_append, String.toList_append,
      List.getLast?_append, List.getLast?_append, if_neg (List.cons_ne_nil _ _)]
    rfl

theorem getLast?_toList_eq_none_iff : path.toList.getLast? = none ↔ path = "" := by
  rw [List.getLast?_eq_none_iff, String.toList_eq_nil_iff]

/-- Whether a joined path can be parsed depends on its last segment alone. -/
theorem intercalate_concat_iff (h : separator ∉ segment.toList) :
    (".".intercalate (front ++ [segment]) ≠ "" ∧
      (".".intercalate (front ++ [segment])).toList.getLast? ≠ some separator) ↔ segment ≠ "" := by
  rw [ne_eq, ← getLast?_toList_eq_none_iff, ne_eq (a := segment), ← getLast?_toList_eq_none_iff,
    getLast?_intercalate_concat]
  cases hc : segment.toList.getLast? with
  | none => split <;> simp
  | some c =>
    have hne : c ≠ separator := fun he => h (he ▸ List.mem_of_getLast? hc)
    simp [hne]

theorem parse_eq_ok_iff_segmented :
    parse path = .ok segments ↔ Segmented segments ∧ ".".intercalate segments = path := by
  rw [parse_eq_ok_iff]
  constructor
  · rintro ⟨hne, hlast, rfl⟩
    have hfilled : (split path.toList).map String.ofList ≠ [] := by
      simpa using split_ne_nil path.toList
    have hapart : ∀ segment ∈ (split path.toList).map String.ofList, separator ∉ segment.toList := by
      intro segment hsegment
      obtain ⟨cs, hcs, rfl⟩ := List.mem_map.mp hsegment
      rw [String.toList_ofList]
      exact separator_not_mem_split hcs
    refine ⟨⟨hfilled, hapart, fun hend => ?_⟩, intercalate_split path⟩
    obtain ⟨front, hfront⟩ := List.getLast?_eq_some_iff.mp hend
    have hjoined := intercalate_split path
    rw [hfront] at hjoined
    rw [← hjoined] at hne hlast
    exact (intercalate_concat_iff (by simp)).mp ⟨hne, hlast⟩ rfl
  · rintro ⟨⟨hfilled, hapart, hend⟩, rfl⟩
    obtain ⟨front, segment, hconcat⟩ := (List.eq_nil_or_concat segments).resolve_left hfilled
    obtain rfl := hconcat.trans List.concat_eq_append
    have hsegment : segment ≠ "" := by simpa using hend
    have hseparate := hapart segment (List.mem_append_right front List.mem_cons_self)
    obtain ⟨hne, hlast⟩ := (intercalate_concat_iff hseparate).mpr hsegment
    have hread : String.ofList ∘ String.toList = id := funext fun _ => String.ofList_toList
    refine ⟨hne, hlast, ?_⟩
    rw [split_intercalate hfilled hapart, List.map_map, hread, List.map_id]

theorem parse_eq_error_iff {e : Error} : parse path = .error e ↔
    (path = "" ∧ e = .argument .emptyFieldPath) ∨
      (path.toList.getLast? = some separator ∧ e = .argument (.trailingSeparator path)) := by
  unfold parse
  split
  next hempty =>
    obtain rfl := String.isEmpty_iff.mp hempty
    simp [eq_comm]
  next hempty =>
    have hne : path ≠ "" := fun he => hempty (String.isEmpty_iff.mpr he)
    split
    next hlast => simp [hne, hlast, eq_comm]
    next hlast => simp [hne, hlast]

/-- A path can be parsed exactly if it is not empty and does not end with a separator; each of the two
faults has its own error. Parsing undoes joining: a path has the segments that it is joined from, and
any texts that can be segments are those of the path that they are joined to. -/
theorem parse_exact (path : String) :
    ((∃ segments, parse path = .ok segments) ↔
      path ≠ "" ∧ path.toList.getLast? ≠ some separator) ∧
    (∀ segments, parse path = .ok segments ↔
      Segmented segments ∧ ".".intercalate segments = path) ∧
    ∀ e, parse path = .error e ↔ (path = "" ∧ e = .argument .emptyFieldPath) ∨
      (path.toList.getLast? = some separator ∧ e = .argument (.trailingSeparator path)) := by
  refine ⟨⟨?_, ?_⟩, fun _ => parse_eq_ok_iff_segmented, fun _ => parse_eq_error_iff⟩
  · rintro ⟨segments, hsegments⟩
    obtain ⟨hne, hlast, _⟩ := parse_eq_ok_iff.mp hsegments
    exact ⟨hne, hlast⟩
  · rintro ⟨hne, hlast⟩
    exact ⟨_, parse_eq_ok_iff.mpr ⟨hne, hlast, rfl⟩⟩

/-- Segments before the last one may be empty. -/
example : parse ".a..b" = .ok ["", "a", "", "b"] := rfl

end ColumnAtlas.FieldPath
