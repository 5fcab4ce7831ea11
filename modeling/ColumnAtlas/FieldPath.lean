import ColumnAtlas.Error

namespace ColumnAtlas.FieldPath

/-- Stands between the segments of a field path. -/
def separator : Char := '.'

/-- Cuts a text at every separator. -/
def split : List Char → List (List Char)
  | [] => [[]]
  | c :: cs =>
    if c = separator then [] :: split cs
    else
      match split cs with
      | [] => [[c]]
      | seg :: segs => (c :: seg) :: segs

/-- Puts a separator between segments. -/
def join : List (List Char) → List Char
  | [] => []
  | [seg] => seg
  | seg :: segs => seg ++ separator :: join segs

theorem split_ne_nil (cs : List Char) : split cs ≠ [] := by
  cases cs with
  | nil => simp [split]
  | cons c cs =>
    simp only [split]
    split
    next => simp
    next => split <;> simp

/-- Joining the segments of a text gives it back. -/
theorem join_split (cs : List Char) : join (split cs) = cs := by
  induction cs with
  | nil => rfl
  | cons c cs ih =>
    have hne := split_ne_nil cs
    cases hs : split cs with
    | nil => exact absurd hs hne
    | cons seg segs =>
      rw [hs] at ih
      by_cases hc : c = separator
      · simp only [split, hc, if_true, hs, join, List.nil_append, ih]
      · cases segs with
        | nil => simpa [split, hc, hs, join] using ih
        | cons seg' segs => simpa [split, hc, hs, join] using ih

theorem separator_not_mem_split {cs seg : List Char} (h : seg ∈ split cs) : separator ∉ seg := by
  induction cs generalizing seg with
  | nil =>
    have he : seg = [] := by simpa [split] using h
    simp [he]
  | cons c cs ih =>
    simp only [split] at h
    split at h
    next =>
      rcases List.mem_cons.mp h with rfl | h
      · simp
      · exact ih h
    next hc =>
      split at h
      next hs => exact absurd hs (split_ne_nil cs)
      next seg' segs hs =>
        rcases List.mem_cons.mp h with rfl | h
        · have := ih (hs ▸ List.mem_cons_self)
          simp [this, Ne.symm hc]
        · exact ih (hs ▸ List.mem_cons_of_mem _ h)

theorem split_append (cs ds : List Char) : split (cs ++ separator :: ds) = split cs ++ split ds := by
  induction cs with
  | nil => simp [split]
  | cons c cs ih =>
    have hne := split_ne_nil cs
    cases hs : split cs with
    | nil => exact absurd hs hne
    | cons seg segs =>
      by_cases hc : c = separator
      · simp [split, hc, ih, hs]
      · simp [split, hc, ih, hs]

/-- A text is its own only segment if there is no separator in it. -/
theorem split_eq_singleton_iff {cs seg : List Char} :
    split cs = [seg] ↔ seg = cs ∧ separator ∉ cs := by
  constructor
  · intro h
    have hjoin := join_split cs
    rw [h] at hjoin
    obtain rfl : seg = cs := hjoin
    exact ⟨rfl, separator_not_mem_split (h ▸ List.mem_singleton_self seg)⟩
  · rintro ⟨rfl, hnot⟩
    induction seg with
    | nil => rfl
    | cons c cs ih =>
      obtain ⟨hc, hcs⟩ := List.ne_and_not_mem_of_not_mem_cons hnot
      simp only [split, if_neg (Ne.symm hc), ih hcs]

/-- The segments of a path, which must not be empty or end with a separator. Segments before the
last one may be empty. -/
def parse (path : String) : Except Error (List String) :=
  if path.isEmpty then .error (.argument .emptyFieldPath)
  else if path.toList.getLast? = some separator then
    .error (.argument (.trailingSeparator path))
  else .ok ((split path.toList).map String.ofList)

theorem parse_eq_ok_iff {path : String} {segments : List String} :
    parse path = .ok segments ↔ path ≠ "" ∧ path.toList.getLast? ≠ some separator ∧
      segments = (split path.toList).map String.ofList := by
  unfold parse
  split
  next hempty => simp [String.isEmpty_iff.mp hempty]
  next hempty =>
    have hne : path ≠ "" := fun he => hempty (String.isEmpty_iff.mpr he)
    split
    next hlast => simp [hlast]
    next hlast =>
      rw [Except.ok.injEq]
      exact ⟨fun h => ⟨hne, hlast, h.symm⟩, fun h => h.2.2.symm⟩

/-- The segments of a path that is put together from two are those of the first, then those of the
second. -/
theorem parse_append {path path' : String} {segments segments' : List String}
    (h : parse path = .ok segments) (h' : parse path' = .ok segments') :
    parse (path ++ "." ++ path') = .ok (segments ++ segments') := by
  obtain ⟨_, _, rfl⟩ := parse_eq_ok_iff.mp h
  obtain ⟨hne, hlast, rfl⟩ := parse_eq_ok_iff.mp h'
  have htext : (path ++ "." ++ path').toList = path.toList ++ separator :: path'.toList := by
    simp [String.toList_append, separator]
  have hfilled : path'.toList ≠ [] := fun he => hne (String.toList_eq_nil_iff.mp he)
  refine parse_eq_ok_iff.mpr ⟨?_, ?_, ?_⟩
  · intro he
    have hnil := congrArg String.toList he
    rw [htext] at hnil
    simp at hnil
  · rwa [htext, List.getLast?_append, List.getLast?_cons, Option.some_or, ← List.getLast?_cons,
      List.getLast?_cons_of_ne_nil hfilled]
  · rw [htext, split_append, List.map_append]

theorem parse_eq_singleton_iff {path segment : String} :
    parse path = .ok [segment] ↔ segment = path ∧ path ≠ "" ∧ separator ∉ path.toList := by
  have hsegments : (split path.toList).map String.ofList = [segment] ↔
      segment = path ∧ separator ∉ path.toList := by
    rw [List.map_eq_singleton_iff]
    simp only [split_eq_singleton_iff]
    constructor
    · rintro ⟨_, ⟨rfl, hnot⟩, rfl⟩
      exact ⟨String.ofList_toList, hnot⟩
    · rintro ⟨rfl, hnot⟩
      exact ⟨_, ⟨rfl, hnot⟩, String.ofList_toList⟩
  rw [parse_eq_ok_iff, eq_comm (a := [segment]), hsegments]
  constructor
  · rintro ⟨hne, _, rfl, hnot⟩
    exact ⟨rfl, hne, hnot⟩
  · rintro ⟨rfl, hne, hnot⟩
    exact ⟨hne, fun hlast => hnot (List.mem_of_getLast? hlast), rfl, hnot⟩

end ColumnAtlas.FieldPath
